import RApache.Apreq.UrlReader

/-!
# Decoding a text that lies in several buffers

`apreq_decodev` calls `url_decode` for one buffer after the other.  A text that ends inside an
escape is moved behind the output, the next buffer is copied behind it, and then the two are
decoded where they lie.
-/

namespace RApache

open Incremental

/-! ## The destination -/

/-- The bytes of a buffer from `s` up to `e`. -/
def span (buf : Nat → UInt8) (s e : Nat) : Bytes := (List.range' s (e - s)).map buf

theorem span_cons (buf : Nat → UInt8) {s e : Nat} (inside : s < e) :
    span buf s e = buf s :: span buf (s + 1) e := by
  have count : e - s = e - (s + 1) + 1 := by omega
  rw [span, count, List.range'_succ, List.map_cons, span]

@[simp] theorem span_length (buf : Nat → UInt8) (s e : Nat) : (span buf s e).length = e - s := by
  simp [span]

theorem span_congr {buf buf' : Nat → UInt8} {s e : Nat}
    (same : ∀ index, s ≤ index → index < e → buf index = buf' index) :
    span buf s e = span buf' s e := by
  refine List.map_congr_left fun index isIndex => ?_
  rw [List.mem_range'_1] at isIndex
  exact same index isIndex.1 (by omega)

theorem span_append (buf : Nat → UInt8) {s m e : Nat} (first : s ≤ m) (second : m ≤ e) :
    span buf s e = span buf s m ++ span buf m e := by
  rcases Nat.exists_eq_add_of_le first with ⟨k, rfl⟩
  rcases Nat.exists_eq_add_of_le second with ⟨l, rfl⟩
  have count : s + k + l - s = k + l := by omega
  rw [span, span, span, count, Nat.add_sub_cancel_left, Nat.add_sub_cancel_left, ← List.map_append,
    List.range'_append_1]

/-- The end of a span is a span. -/
theorem span_suffix {buf : Nat → UInt8} {s e : Nat} {rest : Bytes}
    (suffix : rest <:+ span buf s e) (order : s ≤ e) : span buf (e - rest.length) e = rest := by
  have shorter := suffix.length_le
  rw [span_length] at shorter
  rcases suffix with ⟨taken, whole⟩
  rw [span_append buf (show s ≤ e - rest.length by omega) (by omega)] at whole
  refine (List.append_inj_right' whole ?_).symm
  rw [span_length]
  omega

theorem memory_append (old : Nat → UInt8) (writes more : List (Nat × UInt8)) :
    memory old (writes ++ more) = memory (memory old writes) more := by
  simp [memory, List.foldl_append]

/-- What is not written stays. -/
theorem memory_of_not_written {old : Nat → UInt8} {writes : List (Nat × UInt8)} {index : Nat}
    (untouched : ∀ write ∈ writes, write.1 ≠ index) : memory old writes index = old index := by
  induction writes generalizing old with
  | nil => rfl
  | cons write writes ih =>
      have rest : memory (Function.update old write.1 write.2) writes index =
          Function.update old write.1 write.2 index :=
        ih fun write isWrite => untouched write (List.mem_cons_of_mem _ isWrite)
      rw [memory, List.foldl_cons]
      refine rest.trans (Function.update_of_ne ?_ _ _)
      exact (untouched write List.mem_cons_self).symm

/-- What is written does not depend on what was there before. -/
theorem memory_of_written {old old' : Nat → UInt8} {writes : List (Nat × UInt8)} {index : Nat}
    (written : ∃ write ∈ writes, write.1 = index) :
    memory old writes index = memory old' writes index := by
  induction writes generalizing old old' with
  | nil => simp at written
  | cons write writes ih =>
      by_cases later : ∃ write ∈ writes, write.1 = index
      · exact ih later
      · have untouched : ∀ write ∈ writes, write.1 ≠ index := by
          intro write isWrite same
          exact later ⟨write, isWrite, same⟩
        rcases written with ⟨write', isWrite, same⟩
        rcases List.mem_cons.mp isWrite with rfl | isWrite
        · change memory (Function.update old _ _) writes index =
            memory (Function.update old' _ _) writes index
          rw [memory_of_not_written untouched, memory_of_not_written untouched, ← same,
            Function.update_self, Function.update_self]
        · exact absurd same (untouched write' isWrite)

/-- The bytes of a text with the indices at which they are written. -/
def writesAt (index : Nat) (buffer : Bytes) : List (Nat × UInt8) :=
  (List.range' index buffer.length).zip buffer

theorem UrlState.puts_writes (buffer : Bytes) (st : UrlState) :
    (st.puts buffer).writes = st.writes ++ writesAt st.d buffer := by
  induction buffer generalizing st with
  | nil => simp [UrlState.puts, writesAt]
  | cons c buffer ih =>
      rw [puts_cons, ih]
      simp [UrlState.put, writesAt, List.range'_succ]

theorem writesAt_bounds {index : Nat} {buffer : Bytes} {write : Nat × UInt8}
    (isWrite : write ∈ writesAt index buffer) :
    index ≤ write.1 ∧ write.1 < index + buffer.length := by
  have inRange := (List.of_mem_zip isWrite).1
  rw [List.mem_range'_1] at inRange
  exact inRange

/-- A text that was written is there. -/
theorem span_writesAt (old : Nat → UInt8) (index : Nat) (buffer : Bytes) :
    span (memory old (writesAt index buffer)) index (index + buffer.length) = buffer := by
  induction buffer generalizing old index with
  | nil => simp [span]
  | cons c buffer ih =>
      have writes : writesAt index (c :: buffer) = (index, c) :: writesAt (index + 1) buffer := by
        simp [writesAt, List.range'_succ]
      have first : memory old ((index, c) :: writesAt (index + 1) buffer) index = c := by
        change memory (Function.update old index c) (writesAt (index + 1) buffer) index = c
        rw [memory_of_not_written, Function.update_self]
        intro write isWrite
        have bounds := (writesAt_bounds isWrite).1
        omega
      rw [writes, span_cons _ (by simp), first]
      congr 1
      have rest := ih (Function.update old index c) (index + 1)
      rw [List.length_cons, ← Nat.add_assoc, Nat.add_right_comm]
      exact rest

/-! ## `url_decode` in place -/

/-- The text that is left where `url_decode` stops: from `s` up to `end`. -/
def urlRest (s : Bytes) (st : UrlState) : Bytes :=
  match s with
  | [] => []
  | c :: s =>
      if c = 43 then urlRest s (st.put 32)
      else if c = 37 then
        match _escape : percentEscape s st with
        | .inl _ => c :: s
        | .inr (next, rest) => urlRest rest next
      else urlRest s (st.put c)
termination_by s.length
decreasing_by
  · simp
  · have shorter := (percentEscape_escaped _escape).length
    simp only [List.length_cons]
    omega
  · simp

/-- `url_decode` when its source lies in the destination, from `s` up to `e`: every turn reads
what the turns before have left there.  The second result is where it stops. -/
def urlDecodeWithin (old : Nat → UInt8) (e s : Nat) (st : UrlState) : UrlDecoded × Nat :=
  if _inside : s < e then
    let c := memory old st.writes s
    if c = 43 then urlDecodeWithin old e (s + 1) (st.put 32)
    else if c = 37 then
      match _escape : percentEscape (span (memory old st.writes) (s + 1) e) st with
      | .inl result => (result, s)
      | .inr (next, rest) => urlDecodeWithin old e (e - rest.length) next
    else urlDecodeWithin old e (s + 1) (st.put c)
  else (st.finish .success, s)
termination_by e - s
decreasing_by
  · omega
  · have shorter := (percentEscape_escaped _escape).length
    rw [span_length] at shorter
    omega
  · omega

/-- Writes before `s` leave what is behind it. -/
theorem UrlState.Advances.span {st next : UrlState} {s : Nat} (advances : st.Advances next)
    (old : Nat → UInt8) (e : Nat) (behind : next.d ≤ s) :
    RApache.span (memory old next.writes) s e = RApache.span (memory old st.writes) s e := by
  rcases advances with ⟨-, more, writes, bounds⟩
  rw [writes, memory_append]
  refine span_congr fun index after _ => memory_of_not_written fun write isWrite => ?_
  have before := (bounds write isWrite).2
  omega

theorem urlRest_plain {c : UInt8} (plain : c ≠ 37) (s : Bytes) (st : UrlState) :
    urlRest (c :: s) st = urlRest s (st.put (if c = 43 then 32 else c)) := by
  rw [urlRest]
  split
  next => rfl
  next => rfl

theorem urlRest_percent (s : Bytes) (st : UrlState) :
    urlRest (37 :: s) st =
      match percentEscape s st with
      | .inl _ => 37 :: s
      | .inr (next, rest) => urlRest rest next := by
  rw [urlRest, if_neg (by decide), if_pos rfl]
  split
  next escape => rw [escape]
  next escape => rw [escape]

/-- The text that is left is the one that the reading keeps. -/
theorem urlRest_eq_read {s kept : Bytes} {st st' : UrlState}
    (read : urlReader.read st s = .waiting st' kept) : urlRest s st = kept := by
  induction st, s using urlReader.read_induction with
  | next st s next rest turn ih =>
      rw [urlReader.read_next turn] at read
      rw [← ih read]
      refine urlTurn_cases (P := fun st s turn => turn = .next next rest →
        urlRest s st = urlRest rest next) ?_ ?_ ?_ st s turn
      · intro st turn
        cases turn
      · intro st c s plain turn
        cases turn
        exact urlRest_plain plain _ st
      · intro st s turn
        rw [urlRest_percent, percentTurn_next turn]
  | wait st s st'' turn =>
      rw [urlReader.read_wait turn] at read
      cases read
      refine urlTurn_cases (P := fun st text turn => turn = .wait st' → urlRest text st = text)
        ?_ ?_ ?_ st kept turn
      · intro st _
        rw [urlRest]
      · intro st c s plain turn
        cases turn
      · intro st s turn
        rcases percentTurn_wait turn with ⟨result, escape, -, -⟩
        rw [urlRest_percent, escape]
  | stop st s result turn =>
      rw [urlReader.read_stop turn] at read
      cases read

/-- An output that begins at or before the text never overwrites what is still to be read. -/
theorem urlDecodeWithin_eq {old : Nat → UInt8} {e s : Nat} {st : UrlState} (behind : st.d ≤ s)
    (order : s ≤ e) :
    urlDecodeWithin old e s st =
      (urlDecode (span (memory old st.writes) s e) st,
        e - (urlRest (span (memory old st.writes) s e) st).length) := by
  fun_induction urlDecodeWithin old e s st with
  | case1 s st inside c plus ih =>
      have first : memory old st.writes s = 43 := plus
      have text := (UrlState.advances_put 32 st).span old e (s := s + 1) (by simp; omega)
      rw [ih (by simp; omega) (by omega), text, span_cons _ inside, first,
        urlDecode_plain (by decide), urlRest_plain (by decide), if_pos rfl]
  | case2 s st inside c notPlus percent result escape =>
      have first : memory old st.writes s = 37 := percent
      rw [span_cons _ inside, first, urlDecode_percent, urlRest_percent, escape]
      simp only [List.length_cons, span_length, Prod.mk.injEq, true_and]
      omega
  | case3 s st inside c notPlus percent next rest escape ih =>
      have escaped := percentEscape_escaped escape
      have output := escaped.output
      have shorter := escaped.length
      rw [span_length] at output shorter
      have text : span (memory old next.writes) (e - rest.length) e = rest := by
        rw [escaped.advances.span old e (by omega)]
        exact span_suffix (percentEscape_suffix escape) (by omega)
      have first : memory old st.writes s = 37 := percent
      rw [ih (by omega) (by omega), text, span_cons _ inside, first, urlDecode_percent,
        urlRest_percent, escape]
  | case4 s st inside c notPlus notPercent ih =>
      have text := (UrlState.advances_put c st).span old e (s := s + 1) (by simp; omega)
      have plain : memory old st.writes s ≠ 37 := notPercent
      rw [ih (by simp; omega) (by omega), text, span_cons _ inside, urlDecode_plain plain,
        urlRest_plain plain, if_neg notPlus]
  | case5 s st outside =>
      have empty : span (memory old st.writes) s e = [] := by
        rw [← List.length_eq_zero_iff, span_length]
        omega
      rw [empty, urlDecode, urlRest]
      simp only [List.length_nil, Prod.mk.injEq, true_and]
      omega

/-! ## `apreq_decodev` -/

/-- An element of `v`: a buffer of the caller, or a part of the destination. -/
inductive Iovec where
  | apart (base : Bytes)
  | within (base len : Nat)

/-- `iov_len`. -/
def Iovec.len : Iovec → Nat
  | apart base => base.length
  | within _ len => len

/-- `url_decode` of an element, and `*slen`. -/
def urlDecodeIov (old : Nat → UInt8) (iov : Iovec) (st : UrlState) : UrlDecoded × Nat :=
  match iov with
  | .apart base => (urlDecode base st, base.length - (urlRest base st).length)
  | .within base len =>
      let (result, s) := urlDecodeWithin old (base + len) base st
      (result, s - base)

/-- Where the next call of `url_decode` goes on. -/
def UrlDecoded.state (result : UrlDecoded) : UrlState :=
  { d := result.dlen, charset := result.charset, writes := result.writes }

/-- `memcpy` to the destination. -/
def UrlState.copy (index : Nat) (buffer : Bytes) (st : UrlState) : UrlState :=
  { st with writes := st.writes ++ writesAt index buffer }

/-- The loop of `apreq_decodev`: `iov` is `v[n]`, and `behind` are the elements after it. -/
def decodevLoop (old : Nat → UInt8) (iov : Iovec) (st : UrlState) :
    (behind : List Bytes) → UrlDecoded
  | [] => (urlDecodeIov old iov st).1
  | next :: behind =>
      let (result, slen) := urlDecodeIov old iov st
      match result.status with
      | .success => decodevLoop old (.apart next) result.state behind
      | .incomplete =>
          let len := iov.len - slen
          decodevLoop old (.within result.dlen (next.length + len))
            (result.state.copy (result.dlen + len) next) behind
      | .badSeq => result

/-- `apreq_decodev`; `old` is what the destination holds before. -/
def apreqDecodev (old : Nat → UInt8) : (v : List Bytes) → UrlDecoded
  | [] => { status := .success, dlen := 0, charset := .ascii, writes := [] }
  | base :: v => decodevLoop old (.apart base) {} v

/-- What `apreq_decodev` returns.  It does not add the charset to an error. -/
def decodevValue (result : UrlDecoded) : Nat :=
  match result.status with
  | .badSeq => result.status.code
  | _ => result.status.code + result.charset.code

/-! ### What it leaves -/

/-- The bytes of an element before it is decoded. -/
def Iovec.Reads (old : Nat → UInt8) (st : UrlState) (text : Bytes) : Iovec → Prop
  | apart base => base = text
  | within base len => st.d ≤ base ∧ span (memory old st.writes) base (base + len) = text

theorem urlDecodeIov_eq {old : Nat → UInt8} {iov : Iovec} {st : UrlState} {text : Bytes}
    (reads : iov.Reads old st text) :
    urlDecodeIov old iov st = (urlDecode text st, text.length - (urlRest text st).length) ∧
      iov.len = text.length := by
  cases iov with
  | apart base =>
      cases reads
      exact ⟨rfl, rfl⟩
  | within base len =>
      rcases reads with ⟨behind, rfl⟩
      constructor
      · rw [urlDecodeIov, urlDecodeWithin_eq behind (by omega)]
        simp only [span_length, Prod.mk.injEq, true_and]
        omega
      · simp [Iovec.len]

/-- Wherever `right` writes a byte, `left` leaves the same. -/
def Covers (old : Nat → UInt8) (left right : List (Nat × UInt8)) : Prop :=
  ∀ write ∈ right, memory old left write.1 = memory old right write.1

theorem Covers.append {old : Nat → UInt8} {left right : List (Nat × UInt8)}
    (covers : Covers old left right) (more : List (Nat × UInt8)) :
    Covers old (left ++ more) (right ++ more) := by
  intro write isWrite
  rw [memory_append, memory_append]
  by_cases later : ∃ write' ∈ more, write'.1 = write.1
  · exact memory_of_written later
  · have untouched : ∀ write' ∈ more, write'.1 ≠ write.1 := by
      intro write' isMore same
      exact later ⟨write', isMore, same⟩
    rw [memory_of_not_written untouched, memory_of_not_written untouched]
    rcases List.mem_append.mp isWrite with isWrite | isMore
    · exact covers write isWrite
    · exact absurd rfl (untouched write isMore)

/-- Writes behind those of `right` do no harm. -/
theorem Covers.behind {old : Nat → UInt8} {left right more : List (Nat × UInt8)} {d : Nat}
    (covers : Covers old left right) (before : ∀ write ∈ right, write.1 < d)
    (after : ∀ write ∈ more, d ≤ write.1) : Covers old (left ++ more) right := by
  intro write isWrite
  rw [memory_append, memory_of_not_written]
  · exact covers write isWrite
  · intro write' isMore same
    have bound := before write isWrite
    have bound' := after write' isMore
    omega

theorem urlReader_advances {s kept : Bytes} {st st' : UrlState}
    (read : urlReader.read st s = .waiting st' kept) : st.Advances st' := by
  induction st, s using urlReader.read_induction with
  | next st s next rest turn ih =>
      rw [urlReader.read_next turn] at read
      refine UrlState.Advances.trans ?_ (ih read)
      refine urlTurn_cases (P := fun st _ turn => turn = .next next rest → st.Advances next)
        ?_ ?_ ?_ st s turn
      · intro st turn
        cases turn
      · intro st c s plain turn
        cases turn
        exact UrlState.advances_put _ st
      · intro st s turn
        exact (percentEscape_escaped (percentTurn_next turn)).advances
  | wait st s st'' turn =>
      rw [urlReader.read_wait turn] at read
      cases read
      refine urlTurn_cases (P := fun st _ turn => turn = .wait st' → st.Advances st')
        ?_ ?_ ?_ st kept turn
      · intro st turn
        cases turn
        exact .refl _
      · intro st c s plain turn
        cases turn
      · intro st s turn
        rcases percentTurn_wait turn with ⟨result, -, -, rfl⟩
        exact (UrlState.Advances.refl _).setCharset
  | stop st s result turn =>
      rw [urlReader.read_stop turn] at read
      cases read

theorem urlReader_stopped {s : Bytes} {st : UrlState} {result : UrlDecoded}
    (read : urlReader.read st s = .stopped result) : result.status = .badSeq := by
  induction st, s using urlReader.read_induction with
  | next st s next rest turn ih =>
      rw [urlReader.read_next turn] at read
      exact ih read
  | wait st s st' turn =>
      rw [urlReader.read_wait turn] at read
      cases read
  | stop st s result' turn =>
      rw [urlReader.read_stop turn] at read
      cases read
      refine urlTurn_cases (P := fun _ _ turn => turn = .stop result → result.status = .badSeq)
        ?_ ?_ ?_ st s turn
      · intro st turn
        cases turn
      · intro st c s plain turn
        cases turn
      · intro st s turn
        exact (percentTurn_stop turn).2

theorem urlDecode_prepend (s : Bytes) (st : UrlState) (before : List (Nat × UInt8)) :
    urlDecode s (st.prepend before) = (urlDecode s st).prepend before := by
  rw [urlDecode_eq_read, urlDecode_eq_read, urlReader_prepend]
  cases urlReader.read st s with
  | stopped result => rfl
  | waiting st kept =>
      simp only [Reading.map, urlEnd, UrlState.ended]
      split
      next => exact UrlState.finish_prepend before st .success
      next => exact UrlState.incomplete_prepend before st kept

/-- More text goes on where the text before it ended. -/
theorem urlDecode_append {s kept : Bytes} {st st' : UrlState}
    (read : urlReader.read st s = .waiting st' kept) (more : Bytes) :
    urlDecode (s ++ more) st = urlDecode (kept ++ more) st' := by
  rw [urlDecode_eq_read, urlDecode_eq_read, urlReader_lawful.read_append, read]
  rfl

/-- The same status, length and charset, and the same bytes wherever `right` writes any. -/
structure UrlDecoded.Same (old : Nat → UInt8) (left right : UrlDecoded) : Prop where
  status : left.status = right.status
  dlen : left.dlen = right.dlen
  charset : left.charset = right.charset
  covers : Covers old left.writes right.writes

/-- The state from which an element is decoded, without the writes before it. -/
def UrlState.fresh (st : UrlState) : UrlState := { st with writes := [] }

theorem UrlState.fresh_prepend (st : UrlState) : st.fresh.prepend st.writes = st := by
  simp [fresh, prepend]

@[simp] theorem UrlState.fresh_d (st : UrlState) : st.fresh.d = st.d := rfl
@[simp] theorem UrlState.fresh_writes (st : UrlState) : st.fresh.writes = [] := rfl

/-- A text that is moved and the buffer that is copied behind it. -/
theorem span_moved (old : Nat → UInt8) (writes : List (Nat × UInt8)) (d : Nat)
    (kept next : Bytes) :
    span (memory old (writes ++ writesAt d kept ++ [(d + kept.length, 0)] ++
      writesAt (d + kept.length) next)) d (d + (next.length + kept.length)) = kept ++ next := by
  have first : span (memory old (writes ++ writesAt d kept ++ [(d + kept.length, 0)] ++
      writesAt (d + kept.length) next)) d (d + kept.length) = kept := by
    refine Eq.trans (span_congr fun index _ before => ?_)
      (span_writesAt (memory old writes) d kept)
    rw [memory_append, memory_of_not_written, memory_append, memory_of_not_written, memory_append]
    · intro write isWrite
      rw [List.mem_singleton.mp isWrite]
      exact Nat.ne_of_gt before
    · intro write isWrite
      exact Nat.ne_of_gt (Nat.lt_of_lt_of_le before (writesAt_bounds isWrite).1)
  have second : d + (next.length + kept.length) = d + kept.length + next.length := by omega
  rw [second, span_append _ (Nat.le_add_right d kept.length) (Nat.le_add_right _ _), first,
    memory_append, span_writesAt]

theorem UrlState.finish_state (st : UrlState) (status : DecodeStatus)
    (left : List (Nat × UInt8)) :
    ((st.finish status).prepend left).state =
      st.fresh.prepend (left ++ st.writes ++ [(st.d, 0)]) := by
  simp [finish, UrlDecoded.prepend, UrlDecoded.state, fresh, prepend, put]

theorem UrlState.incomplete_state (st : UrlState) (kept next : Bytes)
    (left : List (Nat × UInt8)) :
    ((st.incomplete kept).prepend left).state.copy (st.d + kept.length) next =
      st.fresh.prepend (left ++ st.writes ++ writesAt st.d kept ++ [(st.d + kept.length, 0)] ++
        writesAt (st.d + kept.length) next) := by
  simp [incomplete, UrlDecoded.prepend, UrlDecoded.state, fresh, prepend, put, copy, puts_writes]

theorem decodevLoop_same {old : Nat → UInt8} {iov : Iovec} {st : UrlState}
    {left right : List (Nat × UInt8)} {text : Bytes} {behind : List Bytes}
    (reads : iov.Reads old (st.prepend left) text) (fresh : st.writes = [])
    (covers : Covers old left right) (before : ∀ write ∈ right, write.1 < st.d) :
    (decodevLoop old iov (st.prepend left) behind).Same old
      (urlDecode (text ++ behind.flatten) (st.prepend right)) := by
  induction behind generalizing iov st left right text with
  | nil =>
      rw [decodevLoop, (urlDecodeIov_eq reads).1, List.flatten_nil, List.append_nil,
        urlDecode_prepend, urlDecode_prepend]
      exact ⟨rfl, rfl, rfl, covers.append _⟩
  | cons next behind ih =>
      rcases urlDecodeIov_eq reads with ⟨decoded, len⟩
      rw [urlDecode_prepend] at decoded
      rw [decodevLoop, decoded]
      cases read : urlReader.read st text with
      | stopped result =>
          have bad := urlReader_stopped read
          have whole : urlReader.read st (text ++ (next :: behind).flatten) = .stopped result := by
            rw [urlReader_lawful.read_append, read]
            rfl
          have isResult : urlDecode text st = result := by rw [urlDecode_eq_read, read, urlEnd]
          rw [isResult, urlDecode_prepend, urlDecode_eq_read _ st, whole]
          have bad' : (result.prepend left).status = .badSeq := bad
          simp only [bad']
          exact ⟨rfl, rfl, rfl, covers.append _⟩
      | waiting st' kept =>
          have advances := urlReader_advances read
          have read' := urlReader_prepend left st text
          rw [read] at read'
          have rest : urlRest text (st.prepend left) = kept := urlRest_eq_read read'
          have shorter := urlReader.read_length read
          have isEnd : urlDecode text st = st'.ended kept := by rw [urlDecode_eq_read, read, urlEnd]
          have go_on : urlDecode (text ++ (next :: behind).flatten) (st.prepend right) =
              urlDecode ((kept ++ next) ++ behind.flatten)
                (st'.fresh.prepend (right ++ st'.writes)) := by
            rw [urlDecode_prepend, urlDecode_append read, ← urlDecode_prepend,
              List.flatten_cons, List.append_assoc]
            simp [UrlState.prepend, UrlState.fresh]
          have inside : ∀ write ∈ right ++ st'.writes, write.1 < st'.fresh.d := by
            intro write isWrite
            rcases List.mem_append.mp isWrite with isWrite | isWrite
            · exact Nat.lt_of_lt_of_le (before write isWrite) advances.d
            · rcases advances.writes with ⟨more, writes, bounds⟩
              rw [writes, fresh, List.nil_append] at isWrite
              exact (bounds write isWrite).2
          rw [rest, isEnd, go_on]
          by_cases done : kept = []
          · subst done
            have success : st'.ended [] = st'.finish .success := if_pos rfl
            rw [success]
            change UrlDecoded.Same old (decodevLoop old (.apart next)
              ((st'.finish .success).prepend left).state behind) _
            rw [UrlState.finish_state]
            refine ih rfl rfl ((covers.append _).behind inside ?_) inside
            intro write isWrite
            rw [List.mem_singleton.mp isWrite]
            exact Nat.le_refl _
          · have incomplete : st'.ended kept = st'.incomplete kept := if_neg done
            have moved : iov.len - (text.length - kept.length) = kept.length := by omega
            rw [incomplete]
            change UrlDecoded.Same old (decodevLoop old
              (.within st'.d (next.length + (iov.len - (text.length - kept.length))))
              (((st'.incomplete kept).prepend left).state.copy
                (st'.d + (iov.len - (text.length - kept.length))) next) behind) _
            rw [moved, UrlState.incomplete_state]
            refine ih ⟨Nat.le_refl _, ?_⟩ rfl ?_ inside
            · exact (congrArg (fun writes => span (memory old writes) _ _)
                (List.append_nil _)).trans (span_moved old (left ++ st'.writes) st'.d kept next)
            · rw [List.append_assoc (left ++ st'.writes), List.append_assoc (left ++ st'.writes)]
              refine (covers.append _).behind inside ?_
              intro write isWrite
              rcases List.mem_append.mp isWrite with isWrite | isCopy
              · rcases List.mem_append.mp isWrite with isKept | isNul
                · exact (writesAt_bounds isKept).1
                · rw [List.mem_singleton.mp isNul]
                  exact Nat.le_add_right _ _
              · exact Nat.le_trans (Nat.le_add_right _ _) (writesAt_bounds isCopy).1

/-- A text that lies in several buffers is decoded as if it were in one, wherever it is cut. -/
theorem apreqDecodev_same (old : Nat → UInt8) (v : List Bytes) (notEmpty : v ≠ []) :
    (apreqDecodev old v).Same old (apreqDecode v.flatten) := by
  cases v with
  | nil => exact absurd rfl notEmpty
  | cons base v =>
      have reads : Iovec.Reads old (UrlState.prepend [] {}) base (.apart base) := rfl
      have none : ∀ write ∈ ([] : List (Nat × UInt8)), write.1 < (UrlState.d {}) := by simp
      exact decodevLoop_same reads rfl (fun write isWrite => by simp at isWrite) none

/-- An escape that is cut in two. -/
theorem apreqDecodev_same_cut :
    (apreqDecodev (fun _ => 7) [bytes "%C3%", bytes "A9"]).Same (fun _ => 7)
      (apreqDecode (bytes "%C3%A9")) :=
  apreqDecodev_same (fun _ => 7) [bytes "%C3%", bytes "A9"] (by decide)

end RApache
