import RApache.Apreq.Brigade
import RApache.Library.Search

/-!
# The delimiter in a brigade

However the bytes are cut into buckets, `split_on_bdry` finds the first delimiter; without one it
holds back only what may be the beginning of one.
-/

namespace RApache

open Incremental

theorem agree_iff {left right : Bytes} : agree left right = true ↔ Compatible left right := by
  induction left generalizing right with
  | nil => simp [agree, Compatible]
  | cons symbol left ih =>
      cases right with
      | nil => simp [agree, Compatible]
      | cons symbol' right =>
          simp only [agree, Bool.and_eq_true, decide_eq_true_eq, ih, Compatible,
            List.cons_prefix_cons]
          constructor
          · rintro ⟨rfl, isPrefix | isPrefix⟩
            · exact .inl ⟨rfl, isPrefix⟩
            · exact .inr ⟨rfl, isPrefix⟩
          · rintro (⟨rfl, isPrefix⟩ | ⟨rfl, isPrefix⟩)
            · exact ⟨rfl, .inl isPrefix⟩
            · exact ⟨rfl, .inr isPrefix⟩

/-! ## In one buffer -/

/-- The delimiter begins at none of the first places of the buffer. -/
def NoneBefore (bdry buffer : Bytes) (point : Nat) : Prop :=
  ∀ index < point, agree bdry (buffer.drop index) = false

theorem NoneBefore.cons {bdry buffer : Bytes} {symbol : UInt8} {point : Nat}
    (differs : agree bdry (symbol :: buffer) = false) (none : NoneBefore bdry buffer point) :
    NoneBefore bdry (symbol :: buffer) (point + 1) := by
  intro index inside
  cases index with
  | zero => exact differs
  | succ index => exact none index (by omega)

theorem NoneBefore.zero (bdry buffer : Bytes) : NoneBefore bdry buffer 0 :=
  fun index inside => absurd inside (Nat.not_lt_zero index)

/-- The first place at which the delimiter may begin. -/
def FirstPlace (bdry buffer : Bytes) : (place : Option Nat) → Prop
  | none => NoneBefore bdry buffer buffer.length
  | some point => point ≤ buffer.length ∧ NoneBefore bdry buffer point

theorem apreqIndex_first (needle hay : Bytes) : FirstPlace needle hay (apreqIndex needle hay) := by
  induction hay with
  | nil => exact NoneBefore.zero needle []
  | cons symbol hay ih =>
      simp only [apreqIndex]
      split
      next => exact ⟨Nat.zero_le _, NoneBefore.zero _ _⟩
      next differs =>
        have differs : agree needle (symbol :: hay) = false := by simpa using differs
        cases found : apreqIndex needle hay with
        | none =>
            rw [found] at ih
            exact NoneBefore.cons differs ih
        | some point =>
            rw [found] at ih
            exact ⟨Nat.succ_le_succ ih.1, ih.2.cons differs⟩

/-- A text that is long enough agrees only with the whole needle. -/
theorem agree_long {needle hay : Bytes} (long : needle.length ≤ hay.length) :
    agree needle hay = needle.isPrefixOf hay := by
  rw [Bool.eq_iff_iff, agree_iff, List.isPrefixOf_iff_prefix]
  refine ⟨fun compatible => ?_, .inl⟩
  rcases compatible with isPrefix | isPrefix
  · exact isPrefix
  · rw [isPrefix.eq_of_length_le long]

theorem aprStrmatch_none {needle hay : Bytes} (nonempty : needle ≠ [])
    (missing : aprStrmatch needle hay = none) :
    NoneBefore needle hay (hay.length + 1 - needle.length) := by
  have positive := List.length_pos_of_ne_nil nonempty
  induction hay with
  | nil => exact fun index inside => absurd inside (by simp only [List.length_nil]; omega)
  | cons symbol hay ih =>
      simp only [aprStrmatch] at missing
      split at missing
      next => cases missing
      next differs =>
        rw [Option.map_eq_none_iff] at missing
        intro index inside
        rw [List.length_cons] at inside
        cases index with
        | zero =>
            rw [List.drop_zero, agree_long (by rw [List.length_cons]; omega)]
            exact Bool.not_eq_true _ |>.mp differs
        | succ index => exact ih missing index (by omega)

theorem aprStrmatch_some {needle hay : Bytes} {point : Nat}
    (found : aprStrmatch needle hay = some point) :
    point + needle.length ≤ hay.length ∧ NoneBefore needle hay point := by
  induction hay generalizing point with
  | nil => cases found
  | cons symbol hay ih =>
      simp only [aprStrmatch] at found
      split at found
      next isPrefix =>
        cases found
        have fits := (List.isPrefixOf_iff_prefix.mp isPrefix).length_le
        exact ⟨by omega, NoneBefore.zero _ _⟩
      next differs =>
        simp only [Option.map_eq_some_iff] at found
        rcases found with ⟨point, found, rfl⟩
        rcases ih found with ⟨fits, none⟩
        rw [List.length_cons]
        refine ⟨by omega, none.cons ?_⟩
        rw [agree_long (by rw [List.length_cons]; omega)]
        exact Bool.not_eq_true _ |>.mp differs

theorem NoneBefore.append {bdry buffer : Bytes} {point more : Nat}
    (none : NoneBefore bdry buffer point) (none' : NoneBefore bdry (buffer.drop point) more) :
    NoneBefore bdry buffer (point + more) := by
  intro index inside
  by_cases before : index < point
  · exact none index before
  · have later := none' (index - point) (by omega)
    rwa [List.drop_drop, Nat.add_sub_cancel' (Nat.le_of_not_lt before)] at later

/-- A buffer is cut at the first place at which the delimiter may begin. -/
theorem bdryIndex_first (pattern : Bool) {bdry : Bytes} (nonempty : bdry ≠ []) (buffer : Bytes) :
    FirstPlace bdry buffer (bdryIndex pattern bdry buffer) := by
  unfold bdryIndex
  split
  next compiled =>
    have long : bdry.length ≤ buffer.length := by
      simp only [Bool.and_eq_true, decide_eq_true_eq] at compiled
      exact compiled.2
    cases found : aprStrmatch bdry buffer with
    | some point => exact ⟨by have := (aprStrmatch_some found).1; omega, (aprStrmatch_some found).2⟩
    | none =>
        have before : NoneBefore bdry buffer (buffer.length - bdry.length) := fun index inside =>
          aprStrmatch_none nonempty found index (by omega)
        have behind := apreqIndex_first bdry (buffer.drop (buffer.length - bdry.length))
        cases tail : apreqIndex bdry (buffer.drop (buffer.length - bdry.length)) with
        | none =>
            rw [tail] at behind
            have all := before.append behind
            rw [List.length_drop, Nat.add_sub_cancel' (Nat.sub_le _ _)] at all
            simp only [tail, Option.map_none]
            exact all
        | some point =>
            rw [tail] at behind
            have inside := behind.1
            rw [List.length_drop] at inside
            have all := before.append behind.2
            rw [Nat.add_comm] at all
            simp only [tail, Option.map_some]
            exact ⟨by omega, all⟩
  next => exact apreqIndex_first bdry buffer

/-! ## In a brigade -/

/-- What a split makes of a text, with what it has moved out before. -/
inductive Split.Searched (bdry : Bytes) (out : Brigade) (text : Bytes) (split : Split) : Prop where
  | found {moved : Brigade} (status : split.status = .success) (isOut : split.out = out ++ moved)
      (full : .data [] ∉ moved)
      (first : text.dropInfix? bdry = some (moved.content, Brigade.content split.rest))
      (open_ : .eos ∉ split.rest)
  | missing {moved : Brigade} {off : Nat} (status : split.status = .incomplete)
      (isOut : split.out = out ++ moved) (full : .data [] ∉ moved)
      (partly : Held bdry off split.rest)
      (isText : text = moved.content ++ Brigade.content split.rest)
      (skips : ∀ more, Skips bdry moved.content (Brigade.content split.rest ++ more))

/-- What is moved out may be skipped. -/
theorem Split.Searched.skip {bdry text : Bytes} {out moved : Brigade} {split : Split}
    (searched : split.Searched bdry (out ++ moved) text)
    (skips : ∀ more, Skips bdry moved.content (text ++ more)) (full : .data [] ∉ moved) :
    split.Searched bdry out (moved.content ++ text) := by
  cases searched with
  | @found moved' status isOut full' first open_ =>
      have found := dropInfix?_skip (by simpa using skips [])
      rw [first] at found
      have isMoved : moved.content ++ moved'.content = Brigade.content (moved ++ moved') := by simp
      simp only [Option.map_some, isMoved] at found
      exact .found status (by rw [isOut, List.append_assoc]) (by simp [full, full']) found open_
  | @missing moved' off status isOut full' partly isText skips' =>
      refine .missing status (by rw [isOut, List.append_assoc]) (by simp [full, full']) partly
        (by simp [isText]) fun more => ?_
      have first := skips more
      rw [isText, List.append_assoc] at first
      rw [Brigade.content_append]
      exact first.append (skips' more)

theorem NoneBefore.skips {bdry buffer : Bytes} {point : Nat} (none : NoneBefore bdry buffer point)
    (inside : point ≤ buffer.length) (more : Bytes) :
    Skips bdry (buffer.take point) (buffer.drop point ++ more) := by
  refine skips_of (fun index short compatible => ?_) more
  rw [List.take_append_drop] at compatible
  rw [List.length_take] at short
  have differs := none index (by omega)
  rw [agree_iff.mpr compatible] at differs
  cases differs

theorem splitRest_content (buffer : Bytes) (point : Nat) :
    Brigade.content (splitRest buffer point) = buffer.drop point := by
  unfold splitRest
  split
  next => simp [Bucket.read]
  next long => rw [List.drop_of_length_le (by omega), Brigade.content_nil]

theorem splitRest_open {rest : Brigade} (open_ : .eos ∉ rest) {buffer : Bytes} {point : Nat} :
    .eos ∉ splitRest buffer point ++ rest := by
  unfold splitRest
  split
  next => simpa using open_
  next => simpa using open_

/-- A bucket with the rest of the delimiter. -/
theorem Held.complete {bdry buffer : Bytes} {off : Nat} {held : Brigade}
    (partly : Held bdry off held) (agrees : agree (bdry.drop off) buffer)
    (complete : bdry.length - off ≤ buffer.length) :
    held.content ++ buffer = bdry ++ buffer.drop (bdry.length - off) := by
  rw [agree_long (by rw [List.length_drop]; exact complete)] at agrees
  have isBuffer := List.prefix_iff_eq_append.mp (List.isPrefixOf_iff_prefix.mp agrees)
  rw [List.length_drop] at isBuffer
  nth_rewrite 1 [← isBuffer]
  rw [partly.spelled, ← List.append_assoc, List.take_append_drop]

theorem Held.full {bdry : Bytes} {off : Nat} {held : Brigade} (partly : Held bdry off held) :
    .data [] ∉ held := by
  intro isBucket
  rcases partly.buckets _ isBucket with ⟨buffer, nonempty, same⟩
  cases same
  exact nonempty rfl

/-- A split finds the first delimiter in what is held and what comes behind it. -/
theorem splitOnBdryLoop_searches (pattern : Bool) {bdry : Bytes} (once : BeginsOnce bdry)
    (out held : Brigade) (off : Nat) (rest : Brigade) (partly : Held bdry off held)
    (open_ : .eos ∉ rest) :
    (splitOnBdryLoop pattern bdry out held off rest).Searched bdry out
      (held.content ++ rest.content) := by
  have none := Held.nil once.ne_nil
  fun_induction splitOnBdryLoop pattern bdry out held off rest with
  | case1 out held off =>
      exact @Split.Searched.missing _ _ _ _ [] _ rfl (by simp) (by simp) partly (by simp)
        fun more before rest _ => Nat.zero_le _
  | case2 off out held rest => simp at open_
  | case3 out held off rest ih => exact ih partly fun isEos => open_ (List.mem_cons_of_mem _ isEos)
  | case4 out held off buffer rest nonempty agrees complete =>
      refine @Split.Searched.found _ _ _ _ [] rfl (by simp) (by simp) ?_ ?_
      · rw [dropInfix?_some]
        refine ⟨?_, fun _ _ _ => Nat.zero_le _⟩
        rw [Brigade.content_cons, Bucket.read, ← List.append_assoc, partly.complete agrees complete]
        simp [splitRest_content]
      · exact splitRest_open fun isEos => open_ (List.mem_cons_of_mem _ isEos)
  | case5 out held off buffer rest nonempty agrees incomplete ih =>
      have searched := ih (partly.snoc nonempty agrees incomplete)
        (fun isEos => open_ (List.mem_cons_of_mem _ isEos))
      simpa [Bucket.read] using searched
  | case6 out held off buffer rest nonempty differs positive ih =>
      refine (ih none open_).skip (fun more => ?_) partly.full
      have differs : ¬ Compatible (bdry.drop off) buffer := fun compatible =>
        differs (agree_iff.mpr compatible)
      have skips := skips_take once differs (Brigade.content rest ++ more)
      simpa [partly.spelled, Bucket.read] using skips
  | case7 out held off buffer rest nonempty differs zero missing ih =>
      have nowhere := bdryIndex_first pattern once.ne_nil buffer
      rw [missing] at nowhere
      have isHeld : held.content = [] := by
        rw [partly.spelled, Nat.eq_zero_of_not_pos zero, List.take_zero]
      have searched := (ih none (fun isEos => open_ (List.mem_cons_of_mem _ isEos))).skip
        (fun more => ?_) (by simpa using Ne.symm nonempty)
      · simpa [isHeld, Bucket.read] using searched
      · have skips := nowhere.skips (Nat.le_refl _) (Brigade.content rest ++ more)
        simpa [Bucket.read] using skips
  | case8 out held off buffer rest nonempty differs zero index found ih =>
      have place := bdryIndex_first pattern once.ne_nil buffer
      rw [found] at place
      have positive := bdryIndex_pos found (by
        rw [Nat.eq_zero_of_not_pos zero, List.drop_zero] at differs
        exact Bool.not_eq_true _ |>.mp differs)
      have isHeld : held.content = [] := by
        rw [partly.spelled, Nat.eq_zero_of_not_pos zero, List.take_zero]
      have full : .data [] ∉ [Bucket.data (buffer.take index)] := by
        have length := List.length_pos_of_ne_nil nonempty
        intro isEmpty
        simp only [List.mem_singleton, Bucket.data.injEq] at isEmpty
        have short := congrArg List.length isEmpty
        rw [List.length_nil, List.length_take] at short
        omega
      have searched := (ih none (fun isEos => open_ (by simpa using isEos))).skip
        (fun more => ?_) full
      · simpa [isHeld, Bucket.read, ← List.append_assoc] using searched
      · have skips := place.2.skips place.1 (Brigade.content rest ++ more)
        simpa [Bucket.read] using skips

/-- A split of a brigade finds the first delimiter in it. -/
theorem splitOnBdry_searches (pattern : Bool) {bdry : Bytes} (once : BeginsOnce bdry)
    (out : Brigade) {in_ : Brigade} (open_ : .eos ∉ in_) :
    (splitOnBdry pattern bdry out in_).Searched bdry out in_.content :=
  splitOnBdryLoop_searches pattern once out [] 0 in_ (Held.nil once.ne_nil) open_

/-! ## In several brigades -/

/-- The search as `apreq_parse_multipart` makes it: what is left of a brigade in which there is no
delimiter is looked at again with the next one. -/
def splitBrigades (pattern : Bool) (bdry : Bytes) (out in_ : Brigade) (brigades : List Brigade) :
    Option (Split × List Brigade) :=
  let split := splitOnBdry pattern bdry out in_
  if split.status = .success then some (split, brigades)
  else
    match brigades with
    | [] => none
    | bb :: brigades => splitBrigades pattern bdry split.out (split.rest ++ bb) brigades

/-- What is held back is shorter than the delimiter. -/
theorem Held.dropInfix? {bdry : Bytes} {off : Nat} {held : Brigade}
    (partly : Held bdry off held) : held.content.dropInfix? bdry = none := by
  cases found : held.content.dropInfix? bdry with
  | none => rfl
  | some parts =>
      have whole := congrArg List.length (dropInfix?_some.mp found).1
      have short := partly.short
      have size := partly.size_eq
      rw [Brigade.size] at size
      simp only [List.length_append] at whole
      omega

/-- What the search finds in a brigade and in those that follow it. -/
theorem splitBrigades_searches (pattern : Bool) {bdry : Bytes} (once : BeginsOnce bdry)
    (out : Brigade) {in_ : Brigade} {brigades : List Brigade} (openIn : .eos ∉ in_)
    (open_ : ∀ bb ∈ brigades, Bucket.eos ∉ bb) :
    match (in_.content ++ brigades.flatMap Brigade.content).dropInfix? bdry with
    | some (before, behind) => ∃ split left, splitBrigades pattern bdry out in_ brigades =
        some (split, left) ∧ Brigade.content split.out = out.content ++ before ∧
          Brigade.content split.rest ++ left.flatMap Brigade.content = behind
    | none => splitBrigades pattern bdry out in_ brigades = none := by
  induction brigades generalizing out in_ with
  | nil =>
      have searched := splitOnBdry_searches pattern once out openIn
      rw [splitBrigades]
      cases searched with
      | found status isOut full first openRest =>
          rw [dropInfix?_append first]
          exact ⟨_, [], if_pos status, by rw [isOut, Brigade.content_append], rfl⟩
      | missing status isOut full partly isText skips =>
          have nowhere := dropInfix?_skip (skips [])
          rw [List.append_nil, partly.dropInfix?, ← isText] at nowhere
          rw [List.flatMap_nil, List.append_nil, nowhere]
          exact if_neg (by simp [status])
  | cons bb brigades ih =>
      have searched := splitOnBdry_searches pattern once out openIn
      rw [splitBrigades]
      cases searched with
      | found status isOut full first openRest =>
          rw [dropInfix?_append first]
          exact ⟨_, _, if_pos status, by rw [isOut, Brigade.content_append], rfl⟩
      | @missing moved off status isOut full partly isText skips =>
          have goesOn : ¬ (splitOnBdry pattern bdry out in_).status = .success := by simp [status]
          have openNext : .eos ∉ (splitOnBdry pattern bdry out in_).rest ++ bb := by
            simpa [partly.not_eos] using open_ bb List.mem_cons_self
          have later := ih (splitOnBdry pattern bdry out in_).out openNext fun bb isLater =>
            open_ bb (List.mem_cons_of_mem _ isLater)
          have skipped := dropInfix?_skip (skips ((bb :: brigades).flatMap Brigade.content))
          rw [isText, List.append_assoc, skipped, if_neg goesOn]
          rw [Brigade.content_append, List.append_assoc, ← List.flatMap_cons] at later
          split at later
          next before behind first =>
            rcases later with ⟨split, left, found, isBefore, isBehind⟩
            rw [first]
            refine ⟨split, left, found, ?_, isBehind⟩
            rw [isBefore, isOut, Brigade.content_append, List.append_assoc]
          next nowhere =>
            rw [nowhere]
            exact later

/-- However a text is cut into brigades and buckets, the first delimiter in it is found, and none
if it has none. -/
theorem splitBrigades_first (pattern : Bool) {bdry : Bytes} (once : BeginsOnce bdry)
    {brigades : List Brigade} (open_ : ∀ bb ∈ brigades, Bucket.eos ∉ bb) :
    match (brigades.flatMap Brigade.content).dropInfix? bdry with
    | some (before, behind) => ∃ split left, splitBrigades pattern bdry [] [] brigades =
        some (split, left) ∧ Brigade.content split.out = before ∧
          Brigade.content split.rest ++ left.flatMap Brigade.content = behind
    | none => splitBrigades pattern bdry [] [] brigades = none :=
  @splitBrigades_searches pattern bdry once [] [] brigades List.not_mem_nil open_

/-- A delimiter that is cut twice, behind a beginning of it. -/
def cutDelimiter : List Brigade :=
  [[.data (bytes "a\r\n-")], [.data (bytes "b\r"), .data []], [.data (bytes "\n-")],
    [.data (bytes "-bc")]]

theorem splitBrigades_first_cut :
    match (cutDelimiter.flatMap Brigade.content).dropInfix? (bytes "\r\n--b") with
    | some (before, behind) => ∃ split left,
        splitBrigades true (bytes "\r\n--b") [] [] cutDelimiter = some (split, left) ∧
          Brigade.content split.out = before ∧
            Brigade.content split.rest ++ left.flatMap Brigade.content = behind
    | none => splitBrigades true (bytes "\r\n--b") [] [] cutDelimiter = none :=
  splitBrigades_first true ⟨13, bytes "\n--b", rfl, by decide +kernel⟩
    (show ∀ bb ∈ cutDelimiter, Bucket.eos ∉ bb by decide +kernel)

/-- What comes behind a delimiter stays behind it. -/
theorem splitOnBdryLoop_append (pattern : Bool) (bdry : Bytes) (out held : Brigade) (off : Nat)
    (rest tail : Brigade)
    (found : (splitOnBdryLoop pattern bdry out held off rest).status = .success) :
    splitOnBdryLoop pattern bdry out held off (rest ++ tail) =
      { splitOnBdryLoop pattern bdry out held off rest with
        rest := (splitOnBdryLoop pattern bdry out held off rest).rest ++ tail } := by
  fun_induction splitOnBdryLoop pattern bdry out held off rest with
  | case1 => cases found
  | case2 => cases found
  | case3 out held off rest ih =>
      rw [List.cons_append, splitOnBdryLoop, if_pos rfl]
      exact ih found
  | case4 out held off buffer rest nonempty agrees complete =>
      rw [List.cons_append, splitOnBdryLoop, if_neg nonempty, dif_pos agrees, if_pos complete]
      simp
  | case5 out held off buffer rest nonempty agrees incomplete ih =>
      rw [List.cons_append, splitOnBdryLoop, if_neg nonempty, dif_pos agrees, if_neg incomplete]
      exact ih found
  | case6 out held off buffer rest nonempty differs positive ih =>
      rw [List.cons_append, splitOnBdryLoop, if_neg nonempty, dif_neg differs, if_pos positive]
      exact ih found
  | case7 out held off buffer rest nonempty differs zero missing ih =>
      rw [List.cons_append, splitOnBdryLoop, if_neg nonempty, dif_neg differs, if_neg zero]
      split
      next => exact ih found
      next index found' =>
        rw [missing] at found'
        cases found'
  | case8 out held off buffer rest nonempty differs zero index place ih =>
      rw [List.cons_append, splitOnBdryLoop, if_neg nonempty, dif_neg differs, if_neg zero]
      split
      next missing =>
        rw [place] at missing
        cases missing
      next index' place' =>
        rw [place] at place'
        cases place'
        exact ih found

theorem splitOnBdry_append {pattern : Bool} {bdry : Bytes} {out in_ : Brigade}
    (found : (splitOnBdry pattern bdry out in_).status = .success) (tail : Brigade) :
    splitOnBdry pattern bdry out (in_ ++ tail) =
      { splitOnBdry pattern bdry out in_ with
        rest := (splitOnBdry pattern bdry out in_).rest ++ tail } :=
  splitOnBdryLoop_append pattern bdry out [] 0 in_ tail found

/-- What a split makes of a text that begins with the delimiter, or with a part of it. -/
inductive Split.Begun (bdry : Bytes) (out : Brigade) (text : Bytes) (split : Split) : Prop where
  | found (status : split.status = .success) (isOut : split.out = out)
      (isText : text = bdry ++ Brigade.content split.rest) (open_ : .eos ∉ split.rest)
  | missing {off : Nat} (status : split.status = .incomplete) (isOut : split.out = out)
      (partly : Held bdry off split.rest) (isText : text = Brigade.content split.rest)

theorem splitOnBdryLoop_begins (pattern : Bool) {bdry : Bytes} (out held : Brigade) (off : Nat)
    (rest : Brigade) (partly : Held bdry off held) (open_ : .eos ∉ rest)
    (begins : Compatible (bdry.drop off) rest.content) :
    (splitOnBdryLoop pattern bdry out held off rest).Begun bdry out
      (held.content ++ rest.content) := by
  induction rest generalizing held off with
  | nil =>
      rw [splitOnBdryLoop]
      exact .missing rfl rfl partly (by simp)
  | cons bucket rest ih =>
      have openRest : .eos ∉ rest := fun isEos => open_ (List.mem_cons_of_mem _ isEos)
      cases bucket with
      | eos => simp at open_
      | data buffer =>
          rw [splitOnBdryLoop]
          rw [Brigade.content_cons, Bucket.read] at begins ⊢
          split
          next empty =>
            subst empty
            exact ih held off partly openRest begins
          next nonempty =>
            have agrees : agree (bdry.drop off) buffer = true := agree_iff.mpr begins.left
            rw [dif_pos agrees]
            split
            next complete =>
              refine .found rfl rfl ?_ (splitRest_open openRest)
              rw [← List.append_assoc, partly.complete agrees complete]
              simp [splitRest_content]
            next incomplete =>
              have longer := partly.snoc nonempty agrees incomplete
              have isPrefix : buffer <+: bdry.drop off := by
                refine begins.left.resolve_left fun isPrefix => incomplete ?_
                rw [← List.length_drop]
                exact isPrefix.length_le
              have isRest := List.prefix_iff_eq_append.mp isPrefix
              rw [List.drop_drop] at isRest
              rw [← isRest] at begins
              have later := ih _ _ longer openRest begins.of_append
              simpa [Bucket.read] using later

theorem splitOnBdry_begins (pattern : Bool) {bdry : Bytes} (nonempty : bdry ≠ []) (out : Brigade)
    {in_ : Brigade} (open_ : .eos ∉ in_) (begins : Compatible bdry in_.content) :
    (splitOnBdry pattern bdry out in_).Begun bdry out in_.content :=
  splitOnBdryLoop_begins pattern out [] 0 in_ (Held.nil nonempty) open_ (by simpa using begins)

end RApache
