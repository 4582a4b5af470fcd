import Mathlib.Data.List.Basic

/-!
# Readers of texts that arrive in pieces

A reader takes one turn after the other.  When the text in front of it is too short for a
turn it waits, keeps that text and begins the turn again as soon as more has come.  If what
it does never depends on text that it has not taken, then it does not matter how the text
was cut into pieces.
-/

namespace Incremental

/-- What a reader does with the text in front of it: it takes some of it, waits for more, or
gives up. -/
inductive Turn (α σ ρ : Type) where
  | next (state : σ) (rest : List α)
  | wait (state : σ)
  | stop (result : ρ)

/-- How reading a text ends: the text that is kept for later, or a result. -/
inductive Reading (α σ ρ : Type) where
  | waiting (state : σ) (kept : List α)
  | stopped (result : ρ)

/-- The same turn with another state or result. -/
def Turn.map {α σ ρ : Type} (f : σ → σ) (g : ρ → ρ) : Turn α σ ρ → Turn α σ ρ
  | next state rest => .next (f state) rest
  | wait state => .wait (f state)
  | stop result => .stop (g result)

def Reading.map {α σ ρ : Type} (f : σ → σ) (g : ρ → ρ) : Reading α σ ρ → Reading α σ ρ
  | waiting state kept => .waiting (f state) kept
  | stopped result => .stopped (g result)

/-- A reader.  A turn that takes text takes at least one symbol. -/
structure Reader (α σ ρ : Type) where
  turn : σ → List α → Turn α σ ρ
  shorter : ∀ {state state' : σ} {text rest : List α},
    turn state text = .next state' rest → rest.length < text.length

namespace Reader

variable {α σ ρ : Type} (reader : Reader α σ ρ)

/-- Take turns until the text is too short. -/
def read (state : σ) (text : List α) : Reading α σ ρ :=
  match _turn : reader.turn state text with
  | .next state rest => read state rest
  | .wait state => .waiting state text
  | .stop result => .stopped result
termination_by text.length
decreasing_by exact reader.shorter _turn

/-- Go on with a further piece of the text. -/
def resume (reading : Reading α σ ρ) (piece : List α) : Reading α σ ρ :=
  match reading with
  | .waiting state kept => reader.read state (kept ++ piece)
  | .stopped result => .stopped result

/-- A turn does not depend on text that it has not taken, and one that waits loses nothing. -/
structure Lawful : Prop where
  next : ∀ {state state' : σ} {text rest : List α} (more : List α),
    reader.turn state text = .next state' rest →
      reader.turn state (text ++ more) = .next state' (rest ++ more)
  wait : ∀ {state state' : σ} {text : List α} (more : List α),
    reader.turn state text = .wait state' →
      reader.turn state' (text ++ more) = reader.turn state (text ++ more)
  stop : ∀ {state : σ} {text : List α} {result : ρ} (more : List α),
    reader.turn state text = .stop result → reader.turn state (text ++ more) = .stop result

theorem read_next {state state' : σ} {text rest : List α}
    (turn : reader.turn state text = .next state' rest) :
    reader.read state text = reader.read state' rest := by
  rw [read]
  split
  next isNext =>
    cases turn.symm.trans isNext
    rfl
  next isWait => cases turn.symm.trans isWait
  next isStop => cases turn.symm.trans isStop

theorem read_wait {state state' : σ} {text : List α}
    (turn : reader.turn state text = .wait state') :
    reader.read state text = .waiting state' text := by
  rw [read]
  split
  next isNext => cases turn.symm.trans isNext
  next isWait =>
    cases turn.symm.trans isWait
    rfl
  next isStop => cases turn.symm.trans isStop

theorem read_stop {state : σ} {text : List α} {result : ρ}
    (turn : reader.turn state text = .stop result) :
    reader.read state text = .stopped result := by
  rw [read]
  split
  next isNext => cases turn.symm.trans isNext
  next isWait => cases turn.symm.trans isWait
  next isStop =>
    cases turn.symm.trans isStop
    rfl

/-- Equal turns lead to equal readings. -/
theorem read_congr {state state' : σ} {text : List α}
    (same : reader.turn state text = reader.turn state' text) :
    reader.read state text = reader.read state' text := by
  cases turn : reader.turn state text with
  | next state rest => rw [reader.read_next turn, reader.read_next (same.symm.trans turn)]
  | wait state => rw [reader.read_wait turn, reader.read_wait (same.symm.trans turn)]
  | stop result => rw [reader.read_stop turn, reader.read_stop (same.symm.trans turn)]

/-- The induction over the turns of a reading. -/
theorem read_induction {P : σ → List α → Prop}
    (next : ∀ state text state' rest, reader.turn state text = .next state' rest →
      P state' rest → P state text)
    (wait : ∀ state text state', reader.turn state text = .wait state' → P state text)
    (stop : ∀ state text result, reader.turn state text = .stop result → P state text)
    (state : σ) (text : List α) : P state text := by
  fun_induction reader.read state text with
  | case1 state text state' rest turn ih => exact next state text state' rest turn ih
  | case2 state text state' turn => exact wait state text state' turn
  | case3 state text result turn => exact stop state text result turn

/-- A change of states that turns do not see is not seen by the reading. -/
theorem read_map {f : σ → σ} {g : ρ → ρ}
    (turn_map : ∀ state text, reader.turn (f state) text = (reader.turn state text).map f g)
    (state : σ) (text : List α) :
    reader.read (f state) text = (reader.read state text).map f g := by
  induction state, text using reader.read_induction with
  | next state text state' rest turn ih =>
      have turn' := turn_map state text
      rw [turn] at turn'
      rw [reader.read_next turn, reader.read_next turn', ih]
  | wait state text state' turn =>
      have turn' := turn_map state text
      rw [turn] at turn'
      rw [reader.read_wait turn, reader.read_wait turn']
      rfl
  | stop state text result turn =>
      have turn' := turn_map state text
      rw [turn] at turn'
      rw [reader.read_stop turn, reader.read_stop turn']
      rfl

/-- What is kept is no longer than the text. -/
theorem read_length {state state' : σ} {text kept : List α}
    (read : reader.read state text = .waiting state' kept) : kept.length ≤ text.length := by
  induction state, text using reader.read_induction with
  | next state text state'' rest turn ih =>
      rw [reader.read_next turn] at read
      exact Nat.le_trans (ih read) (Nat.le_of_lt (reader.shorter turn))
  | wait state text state'' turn =>
      rw [reader.read_wait turn] at read
      cases read
      exact Nat.le_refl _
  | stop state text result turn =>
      rw [reader.read_stop turn] at read
      cases read

variable {reader}

/-- A text in two pieces is read as the whole is. -/
theorem Lawful.read_append (lawful : reader.Lawful) (state : σ) (text more : List α) :
    reader.read state (text ++ more) = reader.resume (reader.read state text) more := by
  induction state, text using reader.read_induction with
  | next state text state' rest turn ih =>
      rw [reader.read_next turn, reader.read_next (lawful.next more turn), ih]
  | wait state text state' turn =>
      rw [reader.read_wait turn, resume]
      exact reader.read_congr (lawful.wait more turn).symm
  | stop state text result turn =>
      rw [reader.read_stop turn, reader.read_stop (lawful.stop more turn), resume]

theorem Lawful.resume_append (lawful : reader.Lawful) (reading : Reading α σ ρ)
    (piece more : List α) :
    reader.resume reading (piece ++ more) = reader.resume (reader.resume reading piece) more := by
  cases reading with
  | waiting state kept =>
      simp only [resume]
      rw [← List.append_assoc, lawful.read_append]
      rfl
  | stopped result => rfl

/-- However a text is cut into pieces, reading one after the other is reading the whole. -/
theorem Lawful.foldl_resume (lawful : reader.Lawful) (state : σ) (text : List α)
    (pieces : List (List α)) :
    pieces.foldl reader.resume (reader.read state text) =
      reader.read state (text ++ pieces.flatten) := by
  induction pieces generalizing text with
  | nil => simp
  | cons piece pieces ih =>
      rw [List.foldl_cons, ← lawful.read_append, ih, List.flatten_cons, List.append_assoc]

end Reader

end Incremental
