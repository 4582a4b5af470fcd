import RApache.Readers

/-!
# Reading the whole body from R

`receiveBin` and console reads share `ReadRequestBody`.  Over input filters that give
the body in pieces of any size, every sequence of such reads returns the body in order.
-/

namespace RApache

/-- The bytes that the reads with these limits got from the input filters, after the
reads with the limits `before`. -/
def RequestRec.delivered (r : RequestRec) : (before limits : List Nat) → Bytes
  | _, [] => []
  | before, length :: limits =>
      (match r.getBrigade before length with
        | .ok bb => bb.content
        | .error _ => []) ++ delivered r (before ++ [length]) limits

theorem RequestRec.delivered_append (r : RequestRec) (before limits more : List Nat) :
    r.delivered before (limits ++ more) =
      r.delivered before limits ++ r.delivered (before ++ limits) more := by
  induction limits generalizing before with
  | nil => simp [delivered]
  | cons length limits ih => simp [delivered, ih, List.append_assoc]

/-- The input filters give the body: a read of at most `length` bytes gives a non-empty
beginning of what remains, or only the end of the stream when nothing remains, and the
buckets can be read. -/
structure RequestRec.Gives (r : RequestRec) (body : Bytes) : Prop where
  answer : ∀ limits length, (∀ limit ∈ limits, 0 < limit) → 0 < length →
    ∃ bb, r.getBrigade limits length = .ok bb ∧
      ((0 < bb.size ∧ bb.size ≤ length ∧
          ∃ rest, body = r.delivered [] limits ++ bb.content ++ rest) ∨
        (r.delivered [] limits = body ∧ bb = [.eos]))
  readable : ∀ limits, r.unreadable limits = false

namespace Session

/-- R may read the body of the request, of which `rest` remains. -/
structure Reading (r : RequestRec) (body rest : Bytes) (s : Session) : Prop where
  current : s.request.r = some r
  notParsed : s.request.postParsed = false
  bbIn : s.bbIn.getD [] = []
  limits : ∀ limit ∈ s.limits, 0 < limit
  remaining : body = r.delivered [] s.limits ++ rest

theorem setUp_reading (left : Session) (r : RequestRec) (handler : Option RApacheDirective)
    (body : Bytes) : Reading r body body (setUp left r handler) where
  current := rfl
  notParsed := rfl
  bbIn := rfl
  limits := by simp [setUp, Session.limits]
  remaining := by simp [setUp, Session.limits, RequestRec.delivered]

/-- What the next read of R gets. -/
theorem Reading.answer {r : RequestRec} {body rest : Bytes} {s : Session}
    (gives : r.Gives body) (reading : Reading r body rest s) {length : Nat}
    (positive : 0 < length) :
    ∃ bb, r.getBrigade s.limits length = .ok bb ∧
      ((0 < bb.size ∧ bb.size ≤ length ∧ ∃ rest', rest = bb.content ++ rest') ∨
        (rest = [] ∧ bb = [.eos])) := by
  rcases gives.answer s.limits length reading.limits positive with ⟨bb, answer, given⟩
  refine ⟨bb, answer, ?_⟩
  rcases given with ⟨nonempty, fits, rest', isBody⟩ | ⟨all, eos⟩
  · rw [reading.remaining, List.append_assoc] at isBody
    exact .inl ⟨nonempty, fits, rest', List.append_cancel_left isBody⟩
  · refine .inr ⟨?_, eos⟩
    have isBody := reading.remaining
    rw [all] at isBody
    exact List.self_eq_append_right.mp isBody

/-- The state after a read whose brigade has been emptied. -/
theorem Reading.next {r : RequestRec} {body rest rest' : Bytes} {s : Session}
    {bb : Brigade} {length : Nat} (reading : Reading r body rest s)
    (positive : 0 < length) (answer : r.getBrigade s.limits length = .ok bb)
    (cut : rest = bb.content ++ rest') :
    Reading r body rest' { s.noteRead .r length with bbIn := some [] } where
  current := reading.current
  notParsed := reading.notParsed
  bbIn := rfl
  limits := by
    intro limit member
    simp only [Session.limits, noteRead_reads, List.map_append, List.map_cons, List.map_nil,
      List.mem_append, List.mem_singleton] at member
    rcases member with earlier | last
    · exact reading.limits limit earlier
    · rw [last]
      exact positive
  remaining := by
    have before := reading.remaining
    simp only [Session.limits, noteRead_reads, List.map_append, List.map_cons, List.map_nil,
      RequestRec.delivered_append, List.nil_append, RequestRec.delivered, List.append_nil]
    simp only [Session.limits] at answer before
    rw [answer, List.append_assoc, ← cut]
    exact before

/-- The loop of `ReadRequestBody` gets as much of what remains as there is room for. -/
theorem readRequestBodyLoop_reading {r : RequestRec} {body : Bytes} (gives : r.Gives body)
    (size : Nat) (buf : Bytes) (s : Session) : ∀ rest, Reading r body rest s →
      (readRequestBodyLoop r size buf s).1 = buf ++ rest.take (size - buf.length) ∧
        Reading r body (rest.drop (size - buf.length))
          (readRequestBodyLoop r size buf s).2 := by
  fun_induction readRequestBodyLoop r size buf s with
  | case1 buf s room len error failed =>
      intro rest reading
      have positive : 0 < len := by simp only [len, hugeStringLen]; omega
      rcases reading.answer gives positive with ⟨bb, answer, -⟩
      simp [failed] at answer
  | case2 buf s room len bb answer brigade unreadable =>
      intro rest reading
      simp [gives.readable] at unreadable
  | case3 buf s room len bb answer brigade readable got =>
      intro rest reading
      have positive : 0 < len := by simp only [len, hugeStringLen]; omega
      have content : brigade.content = bb.content := by simp [brigade, reading.bbIn]
      rcases reading.answer gives positive with ⟨bb', answer', given⟩
      cases answer.symm.trans answer'
      rcases given with ⟨nonempty, fits, -⟩ | ⟨all, eos⟩
      · rw [content] at got
        have none : bb.content = [] := by
          rcases List.take_eq_nil_iff.mp got with zero | empty
          · omega
          · exact empty
        simp [Brigade.size, none] at nonempty
      · have cut : rest = bb.content ++ [] := by simp [all, eos, Bucket.read]
        simpa [all] using reading.next positive answer cut
  | case4 buf s room len bb answer brigade readable symbol more got ih =>
      intro rest reading
      have positive : 0 < len := by simp only [len, hugeStringLen]; omega
      have len_le : len ≤ size - buf.length := by simp only [len]; omega
      have content : brigade.content = bb.content := by simp [brigade, reading.bbIn]
      rcases reading.answer gives positive with ⟨bb', answer', given⟩
      cases answer.symm.trans answer'
      rcases given with ⟨nonempty, fits, rest', cut⟩ | ⟨-, eos⟩
      · have whole : bb.content = symbol :: more := by
          rw [content, List.take_of_length_le (by exact fits)] at got
          exact got
        rcases ih rest' (reading.next positive answer cut) with ⟨same, after⟩
        have size_eq : bb.size = (symbol :: more).length := by rw [← whole]; rfl
        have room' : size - buf.length =
            (symbol :: more).length + (size - (buf ++ symbol :: more).length) := by
          rw [List.length_append]
          omega
        rw [same, cut, whole, room', List.take_length_add_append, List.drop_length_add_append,
          List.append_assoc]
        exact ⟨rfl, after⟩
      · rw [content, eos] at got
        simp [Bucket.read] at got
  | case5 buf s noRoom =>
      intro rest reading
      have full : size - buf.length = 0 := by omega
      rw [full]
      exact ⟨by simp, by simpa using reading⟩

/-- A positive `int` keeps its value as an `apr_size_t`. -/
theorem sizeOfInt_toNat {size : Int32} (positive : 0 < size) :
    (sizeOfInt size).toNat = size.toInt.toNat := by
  have nonneg : (0 : Int64) ≤ size.toInt64 := by
    have lt := Int32.lt_iff_toInt_lt.mp positive
    rw [Int64.le_iff_toInt_le, Int32.toInt_toInt64]
    exact Int.le_of_lt lt
  rw [sizeOfInt, Int64.toNat_toUInt64_of_le nonneg, Int64.toNatClampNeg,
    Int32.toInt_toInt64]

/-- `ReadRequestBody` places at most `size` bytes in its buffer, whatever the input
filters give. -/
theorem readRequestBodyLoop_bound (r : RequestRec) (size : Nat) (buf : Bytes) (s : Session)
    (bound : buf.length ≤ size) : (readRequestBodyLoop r size buf s).1.length ≤ size := by
  fun_induction readRequestBodyLoop r size buf s with
  | case1 => exact bound
  | case2 => exact bound
  | case3 => exact bound
  | case4 buf s room len bb answer brigade readable symbol more got ih =>
      apply ih
      have fits : (symbol :: more).length ≤ len := by
        rw [← got]
        exact List.length_take_le _ _
      have len_le : len ≤ size - buf.length := by simp only [len]; omega
      rw [List.length_append]
      omega
  | case5 => exact bound

theorem readRequestBody_bound {size : Int32} (positive : 0 < size) {s s' : Session}
    {got : Bytes} (called : s.readRequestBody size = some (got, s')) :
    got.length ≤ size.toInt.toNat := by
  unfold readRequestBody at called
  split at called
  next => simp at called
  next r _ =>
    split at called
    next =>
      rcases Option.map_eq_some_iff.mp called with ⟨after, -, same⟩
      cases same
      exact Nat.zero_le _
    next =>
      have same := congrArg Prod.fst (Option.some.inj called)
      rw [← show _ = got from same, ← sizeOfInt_toNat positive]
      exact readRequestBodyLoop_bound r _ [] _ (Nat.zero_le _)

/-- A read of R gets as much of what remains as it asks for. -/
theorem readRequestBody_reading {r : RequestRec} {body rest : Bytes} {s : Session}
    (gives : r.Gives body) (reading : Reading r body rest s) {size : Int32}
    (positive : 0 < size) :
    ∃ s', s.readRequestBody size = some (rest.take size.toInt.toNat, s') ∧
      Reading r body (rest.drop size.toInt.toNat) s' := by
  let started : Session :=
    { s with
      request := { s.request with readStarted := true }
      bbIn := some (s.bbIn.getD []) }
  have begun : Reading r body rest started :=
    ⟨reading.current, reading.notParsed, reading.bbIn, reading.limits, reading.remaining⟩
  have spec := readRequestBodyLoop_reading gives (sizeOfInt size).toNat [] started rest begun
  rw [sizeOfInt_toNat positive] at spec
  refine ⟨(readRequestBodyLoop r size.toInt.toNat [] started).2, ?_, by simpa using spec.2⟩
  have called : s.readRequestBody size =
      some (readRequestBodyLoop r (sizeOfInt size).toNat [] started) := by
    simp [readRequestBody, reading.current, reading.notParsed, started]
  rw [called, sizeOfInt_toNat positive]
  congr 1
  exact Prod.ext (by simpa using spec.1) rfl

/-! ## Sequences of reads -/

/-- A read of the body by R code: a call of `receiveBin` or of `ReadConsole` with a
positive size. -/
inductive BodyCall where
  | receiveBin (size : Int32) (positive : 0 < size)
  | readConsole (size : Int32) (positive : 0 < size)

namespace BodyCall

def call : BodyCall → Call
  | receiveBin size _ => .receiveBin size
  | readConsole size _ => .readConsole size

/-- The number of bytes that the call asks for. -/
def size : BodyCall → Nat
  | receiveBin size _ => size.toInt.toNat
  | readConsole size _ => size.toInt.toNat

end BodyCall

/-- One read of the body. -/
theorem exec_reading {r : RequestRec} {body rest : Bytes} {s : Session} (fuel : Nat)
    (gives : r.Gives body) (reading : Reading r body rest s) (call : BodyCall) :
    ∃ s', s.exec fuel call.call = (.returned (.raw (rest.take call.size)), s') ∧
      Reading r body (rest.drop call.size) s' := by
  cases call with
  | receiveBin size positive =>
      rcases readRequestBody_reading gives reading positive with ⟨s', called, after⟩
      exact ⟨s', by simp [exec, BodyCall.call, receiveBin, positive, called, BodyCall.size],
        after⟩
  | readConsole size positive =>
      rcases readRequestBody_reading gives reading positive with ⟨s', called, after⟩
      exact ⟨s', by simp [exec, BodyCall.call, readConsole, called, BodyCall.size], after⟩

/-- Cut a body into pieces of the given sizes; the last ones may be shorter. -/
def pieces : (sizes : List Nat) → (body : Bytes) → List Bytes
  | [], _ => []
  | size :: sizes, body => body.take size :: pieces sizes (body.drop size)

theorem pieces_flatten (sizes : List Nat) (body : Bytes) :
    (pieces sizes body).flatten = body.take sizes.sum := by
  induction sizes generalizing body with
  | nil => simp [pieces]
  | cons size sizes ih =>
      rw [pieces, List.flatten_cons, ih, List.sum_cons, List.take_add]

@[simp] theorem pieces_length (sizes : List Nat) (body : Bytes) :
    (pieces sizes body).length = sizes.length := by
  induction sizes generalizing body with
  | nil => rfl
  | cons size sizes ih => simp [pieces, ih]

theorem pieces_take (sizes : List Nat) (body : Bytes) (count : Nat) :
    (pieces sizes body).take count = pieces (sizes.take count) body := by
  induction sizes generalizing body count with
  | nil => simp [pieces]
  | cons size sizes ih =>
      cases count with
      | zero => simp [pieces]
      | succ count => simp [pieces, ih]

theorem pieces_getElem? (sizes : List Nat) (body : Bytes) (index : Nat) :
    (pieces sizes body)[index]? =
      sizes[index]?.map fun size => (body.drop (sizes.take index).sum).take size := by
  induction sizes generalizing body index with
  | nil => simp [pieces]
  | cons size sizes ih =>
      cases index with
      | zero => simp [pieces]
      | succ index => simp [pieces, ih]

/-- Each piece is as long as its size, or as what the earlier pieces leave. -/
theorem pieces_getElem?_length {sizes : List Nat} {body : Bytes} {index size : Nat}
    (found : sizes[index]? = some size) :
    ∃ got, (pieces sizes body)[index]? = some got ∧
      got.length =
        min size (body.length - ((pieces sizes body).take index).flatten.length) := by
  refine ⟨(body.drop (sizes.take index).sum).take size, by simp [pieces_getElem?, found], ?_⟩
  rw [pieces_take, pieces_flatten]
  simp only [List.length_take, List.length_drop]
  omega

/-- A sequence of reads. -/
theorem execAll_reading {r : RequestRec} {body rest : Bytes} {s : Session} (fuel : Nat)
    (gives : r.Gives body) (reading : Reading r body rest s) (calls : List BodyCall) :
    ∃ s', s.execAll fuel (calls.map BodyCall.call) =
        ((pieces (calls.map BodyCall.size) rest).map .raw, s') ∧
      Reading r body (rest.drop (calls.map BodyCall.size).sum) s' := by
  induction calls generalizing rest s with
  | nil => exact ⟨s, rfl, by simpa using reading⟩
  | cons call calls ih =>
      rcases exec_reading fuel gives reading call with ⟨next, executed, after⟩
      rcases ih after with ⟨s', executedAll, afterAll⟩
      refine ⟨s', ?_, ?_⟩
      · simp [execAll, executed, executedAll, pieces]
      · simpa using afterAll

/-- The loop `while (length(receiveBin(n)) > 0)`, followed for at most so many
iterations: what the calls returned before the last one. -/
def receiveLoop (fuel : Nat) (n : Int32) :
    (iterations : Nat) → (s : Session) → Option (List Bytes)
  | 0, _ => none
  | iterations + 1, s =>
      match s.receiveBin fuel n with
      | (.returned (.raw []), _) => some []
      | (.returned (.raw got), s) => (receiveLoop fuel n iterations s).map (got :: ·)
      | _ => none

/-- The loop reads what remains of the body, and ends. -/
theorem receiveLoop_reading {r : RequestRec} {body rest : Bytes} {s : Session} (fuel : Nat)
    (gives : r.Gives body) (reading : Reading r body rest s) {n : Int32}
    (positive : 0 < n) :
    ∃ iterations results, receiveLoop fuel n iterations s = some results ∧
      results.flatten = rest := by
  have size_pos : 0 < n.toInt.toNat := by
    have lt := Int32.lt_iff_toInt_lt.mp positive
    simp only [Int32.toInt_zero] at lt
    omega
  induction length : rest.length using Nat.strongRecOn generalizing rest s with
  | ind _ ih =>
      rcases exec_reading fuel gives reading (.receiveBin n positive) with
        ⟨s', executed, after⟩
      simp only [exec, BodyCall.call, BodyCall.size] at executed after
      cases got : rest.take n.toInt.toNat with
      | nil =>
          rw [got] at executed
          refine ⟨1, [], by simp [receiveLoop, executed], ?_⟩
          rcases List.take_eq_nil_iff.mp got with zero | empty
          · omega
          · rw [empty]
            rfl
      | cons symbol more =>
          rw [got] at executed
          have nonempty : 0 < rest.length := by
            have lengths := congrArg List.length got
            simp only [List.length_take, List.length_cons] at lengths
            omega
          rcases ih _ (by rw [← length, List.length_drop]; omega) after rfl with
            ⟨iterations, results, looped, all⟩
          refine ⟨iterations + 1, (symbol :: more) :: results, ?_, ?_⟩
          · simp [receiveLoop, executed, looped]
          · rw [List.flatten_cons, all, ← got, List.take_append_drop]

/-- Reads of the body by R code return it in order: nothing is lost, duplicated or
reordered, each read gets as much as it asks for while there is as much, and a loop of
reads gets the whole body.  No read writes behind its buffer. -/
theorem body_is_read_in_order (left : Session) (r : RequestRec)
    (handler : Option RApacheDirective) {body : Bytes} (gives : r.Gives body) (fuel : Nat)
    (calls : List BodyCall) :
    let run := (setUp left r handler).execAll fuel (calls.map BodyCall.call)
    (∃ results : List Bytes,
      run.1 = results.map .raw ∧ results.length = calls.length ∧
      results.flatten <+: body ∧
      (∀ index (inside : index < calls.length), ∃ got, results[index]? = some got ∧
        got.length =
          min calls[index].size (body.length - (results.take index).flatten.length)) ∧
      ∀ n, 0 < n → ∃ iterations rest, receiveLoop fuel n iterations run.2 = some rest ∧
        results.flatten ++ rest.flatten = body) ∧
    ∀ (size : Int32), 0 < size → ∀ (s s' : Session) (got : Bytes),
      s.readRequestBody size = some (got, s') → got.length ≤ size.toInt.toNat := by
  intro run
  refine ⟨?_, fun size positive s s' got called => readRequestBody_bound positive called⟩
  rcases execAll_reading fuel gives (setUp_reading left r handler body) calls with
    ⟨s', executed, after⟩
  have isRun : run = _ := executed
  refine ⟨pieces (calls.map BodyCall.size) body, by rw [isRun], by simp, ?_, ?_, ?_⟩
  · rw [pieces_flatten]
    exact List.take_prefix _ _
  · intro index inside
    exact pieces_getElem?_length (by simp [inside])
  · intro n positive
    rw [isRun]
    rcases receiveLoop_reading fuel gives after positive with
      ⟨iterations, rest, looped, all⟩
    refine ⟨iterations, rest, looped, ?_⟩
    rw [all, pieces_flatten, List.take_append_drop]

/-- A request whose input filters give a body in pieces as large as asked for. -/
def bodyRequest (body : Bytes) : RequestRec where
  address := 0
  handler := bytes "r-handler"
  getBrigade limits length :=
    match body.drop limits.sum with
    | [] => .ok [.eos]
    | rest => .ok [.data (rest.take length)]

theorem bodyRequest_getBrigade (body : Bytes) (limits : List Nat) (length : Nat) :
    ∃ bb, (bodyRequest body).getBrigade limits length = .ok bb ∧
      bb.content = (body.drop limits.sum).take length := by
  simp only [bodyRequest]
  cases body.drop limits.sum with
  | nil => exact ⟨_, rfl, by simp [Bucket.read]⟩
  | cons symbol more => exact ⟨_, rfl, by simp [Bucket.read]⟩

theorem bodyRequest_delivered (body : Bytes) (before limits : List Nat) :
    (bodyRequest body).delivered before limits =
      (body.drop before.sum).take limits.sum := by
  induction limits generalizing before with
  | nil => simp [RequestRec.delivered]
  | cons length limits ih =>
      rcases bodyRequest_getBrigade body before length with ⟨bb, answer, content⟩
      rw [RequestRec.delivered, ih, answer, List.sum_cons, List.take_add]
      simp [content]

theorem bodyRequest_gives (body : Bytes) : (bodyRequest body).Gives body where
  answer := by
    intro limits length _ positive
    rw [bodyRequest_delivered]
    cases rest : body.drop limits.sum with
    | nil =>
        refine ⟨[.eos], by simp [bodyRequest, rest], .inr ⟨?_, rfl⟩⟩
        exact List.take_of_length_le (List.drop_eq_nil_iff.mp rest)
    | cons symbol more =>
        refine ⟨[.data ((symbol :: more).take length)], by simp [bodyRequest, rest], .inl ?_⟩
        refine ⟨?_, ?_, (symbol :: more).drop length, ?_⟩
        · simp only [Brigade.size_cons, Brigade.size_nil, Bucket.read, List.length_take,
            List.length_cons]
          omega
        · simp only [Brigade.size_cons, Brigade.size_nil, Bucket.read, List.length_take]
          omega
        · rw [Brigade.content_cons, Brigade.content_nil, List.append_nil, List.append_assoc,
            Bucket.read, List.take_append_drop, ← rest]
          exact (List.take_append_drop limits.sum body).symm
  readable := fun _ => rfl

/-- Three bytes, read with a buffer of two and then with one of five. -/
theorem abc_is_read_in_order :
    (bodyRequest (bytes "abc")).Gives (bytes "abc") ∧
      ∃ results : List Bytes,
        ((setUp {} (bodyRequest (bytes "abc")) none).execAll 0
          [.receiveBin 2, .readConsole 5]).1 = results.map .raw ∧
        results.flatten <+: bytes "abc" := by
  refine ⟨bodyRequest_gives _, ?_⟩
  rcases (body_is_read_in_order {} (bodyRequest (bytes "abc")) none (bodyRequest_gives _) 0
    [.receiveBin 2 (by decide), .readConsole 5 (by decide)]).1 with
    ⟨results, executed, -, isPrefix, -⟩
  exact ⟨results, executed, isPrefix⟩

end Session

end RApache
