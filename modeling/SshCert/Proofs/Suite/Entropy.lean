import SshCert.Suite.Entropy
import SshCert.Wire.Sink

/-
  What filling a buffer comes to.
  The source is asked until the pieces that it has given reach the size, and each call asks for
  what they lack (`Filled`, kept by every answer in `Filled.after`). `fillPlaced` does the same
  inside the buffer: every call is told where to write, which is directly behind what has been
  written, so it leaves the pieces in a row and the bytes behind them as they were
  (`fillPlaced_eq`).
  `fill_exact` says both of every buffer and every source.
-/

namespace SshCert.Entropy

open Wire

/-! ## Answers -/

/-- The bytes that an answer brings. -/
def Answer.piece : Answer → Bytes
  | .delivered piece => piece
  | _ => []

/-- Whether the source is asked again if bytes are missing: after an interruption and after a piece
that has bytes. -/
def Answer.goesOn : Answer → Bool
  | .interrupted => true
  | .failed => false
  | .delivered piece => !piece.isEmpty

/-- The pieces of the answers one behind the other. -/
def received (answers : List Answer) : Bytes := answers.flatMap Answer.piece

@[simp] theorem received_nil : received [] = [] := rfl

@[simp] theorem received_cons (a : Answer) (r : List Answer) :
    received (a :: r) = a.piece ++ received r := rfl

theorem piece_of_stops {a : Answer} (h : a.goesOn = false) : a.piece = [] := by
  cases a with
  | delivered piece => simpa [Answer.goesOn, Answer.piece] using h
  | _ => rfl

section Steps

variable {missing size : Nat} {a : Answer} {answers : List Answer}

@[simp] theorem fill_zero (answers : List Answer) : fill 0 answers = ⟨true, [], []⟩ := by
  cases answers <;> rfl

theorem fill_nil (h : missing ≠ 0) : fill missing [] = ⟨false, [missing], []⟩ := by
  rw [fill, if_neg h]

/-- An answer that does not go on ends the filling. Any other one is a call more in front of filling
what is missing behind it. -/
theorem fill_cons (h : missing ≠ 0) :
    fill missing (a :: answers) =
      if a.goesOn then
        (fill (missing - a.piece.length) answers).after missing (a.piece.take missing)
      else ⟨false, [missing], []⟩ := by
  cases a with
  | interrupted => simp [fill, h, Answer.goesOn, Answer.piece]
  | failed => simp [fill, h, Answer.goesOn]
  | delivered piece =>
    have hmissing : missing - (piece.take missing).length = missing - piece.length := by
      rw [List.length_take]
      omega
    by_cases hempty : piece = []
    · simp [fill, h, Answer.goesOn, hempty]
    · have hsome : piece.take missing ≠ [] := by simp [h, hempty]
      rw [fill, if_neg h, if_neg (mt List.isEmpty_iff.mp hsome), hmissing, if_pos]
      · rfl
      · simp [Answer.goesOn, hempty]

/-! ## A whole filling -/

/-- How a filling goes: every call asks for what the pieces before it lack, and there is one only if
they lack something. It ends when the pieces reach the size, or with the first answer that does not
go on. -/
structure Filled (size : Nat) (answers : List Answer) (f : Filling) : Prop where
  asked : f.asked =
    (List.range f.asked.length).map fun i => size - (received (answers.take i)).length
  missing : ∀ i < f.asked.length, (received (answers.take i)).length < size
  bytes : f.bytes = (received (answers.take f.asked.length)).take size
  complete : f.complete = true ↔ size ≤ (received (answers.takeWhile Answer.goesOn)).length
  reached : f.complete = true → size ≤ (received (answers.take f.asked.length)).length
  refused : f.complete = false →
    f.asked.length = (answers.takeWhile Answer.goesOn).length + 1

theorem filled_zero (answers : List Answer) : Filled 0 answers ⟨true, [], []⟩ := by
  constructor <;> simp

/-- A first call whose answer does not go on is the only one. -/
theorem filled_of_stops (h : size ≠ 0) (hstops : answers.takeWhile Answer.goesOn = [])
    (hpiece : received (answers.take 1) = []) : Filled size answers ⟨false, [size], []⟩ := by
  constructor <;> simp [hstops, hpiece] <;> omega

/-- One call more in front keeps the account. -/
theorem Filled.after {f : Filling} (hf : Filled (size - a.piece.length) answers f)
    (h : size ≠ 0) (ha : a.goesOn = true) :
    Filled size (a :: answers) (f.after size (a.piece.take size)) := by
  have hwhile : (a :: answers).takeWhile Answer.goesOn =
      a :: answers.takeWhile Answer.goesOn := List.takeWhile_cons_of_pos ha
  have hreceived (count : Nat) : received ((a :: answers).take (count + 1)) =
      a.piece ++ received (answers.take count) := by
    rw [List.take_succ_cons, received_cons]
  have hcount : (f.after size (a.piece.take size)).asked.length = f.asked.length + 1 := rfl
  constructor
  · show size :: f.asked = _
    rw [hcount, List.range_succ_eq_map, List.map_cons, List.map_map]
    congr 1
    refine hf.asked.trans (List.map_congr_left fun i _ => ?_)
    rw [Function.comp_apply, hreceived, List.length_append, Nat.sub_add_eq]
  · intro i hi
    cases i with
    | zero => simpa using Nat.pos_of_ne_zero h
    | succ i =>
      have hlater := hf.missing i (by omega)
      rw [hreceived, List.length_append]
      omega
  · rw [hcount, hreceived, List.take_append, ← hf.bytes]
    rfl
  · show f.complete = true ↔ _
    rw [hf.complete, hwhile, received_cons, List.length_append]
    omega
  · intro hcomplete
    have hlater := hf.reached hcomplete
    rw [hcount, hreceived, List.length_append]
    omega
  · intro hcomplete
    rw [hcount, hf.refused hcomplete, hwhile, List.length_cons]

/-- Every filling goes like this, answer by answer. -/
theorem filled_fill (size : Nat) (answers : List Answer) :
    Filled size answers (fill size answers) := by
  induction answers generalizing size with
  | nil =>
    by_cases h : size = 0
    · rw [h, fill_zero]
      exact filled_zero []
    · rw [fill_nil h]
      exact filled_of_stops h rfl rfl
  | cons a answers ih =>
    by_cases h : size = 0
    · rw [h, fill_zero]
      exact filled_zero _
    · cases ha : a.goesOn with
      | false =>
        rw [fill_cons h, ha, if_neg Bool.false_ne_true]
        refine filled_of_stops h (List.takeWhile_cons_of_neg (by rw [ha]; nofun)) ?_
        rw [List.take_succ_cons, received_cons, piece_of_stops ha, List.take_zero, received_nil,
          List.append_nil]
      | true =>
        rw [fill_cons h, ha, if_pos rfl]
        exact (ih _).after h ha

end Steps

/-! ## Filling in place -/

/-- A call of the source: where it writes, and how many bytes it may write there. -/
structure Call where
  place : Nat
  size : Nat
  deriving DecidableEq, Repr

/-- The call for the rest of a buffer. -/
def rest (p : Placed) : Call := ⟨p.position, p.buffer.length - p.position⟩

/-- How filling a buffer ended: the calls that were made, and what the buffer holds then. -/
structure InPlace where
  complete : Bool
  calls : List Call
  buffer : Bytes
  deriving DecidableEq, Repr

/-- Puts a call in front. -/
def InPlace.after (f : InPlace) (call : Call) : InPlace := { f with calls := call :: f.calls }

/-- Fills a buffer from its position on, where the source writes what it brings. -/
def fillPlaced (p : Placed) : List Answer → InPlace
  | [] => if p.position = p.buffer.length then ⟨true, [], p.buffer⟩ else ⟨false, [rest p], p.buffer⟩
  | a :: r =>
    if p.position = p.buffer.length then ⟨true, [], p.buffer⟩
    else
      let written := Sink.put p (a.piece.take (rest p).size)
      if a.goesOn then (fillPlaced written r).after (rest p) else ⟨false, [rest p], written.buffer⟩

/-- What is written behind the bytes that are done takes the place of as many others. -/
theorem put_done (done old piece : Bytes) :
    Sink.put (⟨done ++ old, done.length⟩ : Placed) piece =
      ⟨(done ++ piece) ++ old.drop piece.length, (done ++ piece).length⟩ := by
  show (⟨overwrite (done ++ old) done.length piece, done.length + piece.length⟩ : Placed) = _
  simp [overwrite]

section Buffers

variable {done old : Bytes} {a : Answer}

theorem rest_done : rest ⟨done ++ old, done.length⟩ = ⟨done.length, old.length⟩ := by
  simp [rest]

theorem fillPlaced_full (done : Bytes) (answers : List Answer) :
    fillPlaced ⟨done, done.length⟩ answers = ⟨true, [], done⟩ := by
  cases answers <;> simp [fillPlaced]

theorem fillPlaced_nil (h : old ≠ []) :
    fillPlaced ⟨done ++ old, done.length⟩ [] =
      ⟨false, [⟨done.length, old.length⟩], done ++ old⟩ := by
  simp [fillPlaced, rest_done, h]

theorem fillPlaced_cons (h : old ≠ []) (answers : List Answer) :
    fillPlaced ⟨done ++ old, done.length⟩ (a :: answers) =
      let got := a.piece.take old.length
      if a.goesOn then
        (fillPlaced ⟨(done ++ got) ++ old.drop got.length, (done ++ got).length⟩ answers).after
          ⟨done.length, old.length⟩
      else ⟨false, [⟨done.length, old.length⟩], done ++ old⟩ := by
  rw [fillPlaced, if_neg (by simpa using h), rest_done, put_done]
  dsimp only
  split
  · rfl
  · next hstops => simp [piece_of_stops (eq_false_of_ne_true hstops)]

/-- Filling in place makes the same calls, each for the end of the buffer, and leaves the pieces in
a row in front of what it did not reach. -/
theorem fillPlaced_eq (done old : Bytes) (answers : List Answer) :
    fillPlaced ⟨done ++ old, done.length⟩ answers =
      ⟨(fill old.length answers).complete,
        (fill old.length answers).asked.map fun missing =>
          ⟨(done ++ old).length - missing, missing⟩,
        done ++ ((fill old.length answers).bytes
          ++ old.drop (fill old.length answers).bytes.length)⟩ := by
  induction answers generalizing done old with
  | nil =>
    by_cases h : old = []
    · simp [h, fillPlaced_full]
    · have hsize : old.length ≠ 0 := mt List.length_eq_zero_iff.mp h
      simp [fillPlaced_nil h, fill_nil hsize]
  | cons a answers ih =>
    by_cases h : old = []
    · simp [h, fillPlaced_full]
    · have hsize : old.length ≠ 0 := mt List.length_eq_zero_iff.mp h
      rw [fillPlaced_cons h, fill_cons hsize]
      dsimp only
      split
      · generalize hgot : a.piece.take old.length = got
        have hlength : got.length = min old.length a.piece.length := by
          rw [← hgot, List.length_take]
        have hmissing : (old.drop got.length).length = old.length - a.piece.length := by
          rw [List.length_drop, hlength]
          omega
        have hsame : ((done ++ got) ++ old.drop got.length).length = (done ++ old).length := by
          simp only [List.length_append, List.length_drop, hlength]
          omega
        rw [ih, hmissing, hsame]
        simp [InPlace.after, Filling.after, List.drop_drop]
      · simp

end Buffers

/-! ## Every buffer and every source -/

/-- Filling a buffer, whatever it holds and whatever the source answers. Filling in place comes to
the same as collecting the pieces. Each call is for all that is missing and writes directly behind
the pieces before it, and none is made once nothing is missing. The buffer is filled exactly if the
pieces reach its size before an answer that does not go on, and then it holds the pieces and nothing
else. Otherwise the answer that does not go on was the last, and the buffer is as it was behind the
pieces. No source is needed for a buffer without bytes. (What a source gives beyond what it was
asked for is cut off; one that never does so loses nothing.) -/
theorem fill_exact (old : Bytes) (answers : List Answer) :
    let f := fill old.length answers
    let placed := fillPlaced ⟨old, 0⟩ answers
    let heard := answers.take placed.calls.length
    let written := (received heard).take old.length
    (placed.complete = f.complete ∧ placed.calls.map Call.size = f.asked ∧
      (fillPlaced ⟨List.replicate old.length 0, 0⟩ answers).buffer = f.buffer old.length) ∧
    placed.calls = (List.range placed.calls.length).map (fun i =>
      let before := received (answers.take i)
      ⟨before.length, old.length - before.length⟩) ∧
    (∀ i < placed.calls.length, (received (answers.take i)).length < old.length) ∧
    (placed.complete = true ↔
      old.length ≤ (received (answers.takeWhile Answer.goesOn)).length) ∧
    (placed.complete = true → placed.buffer = written ∧ written.length = old.length) ∧
    (placed.complete = false →
      placed.calls.length = (answers.takeWhile Answer.goesOn).length + 1 ∧
        placed.buffer = written ++ old.drop written.length) ∧
    (old = [] → placed.complete = true ∧ placed.calls = []) := by
  intro f placed heard written
  have hfilled : Filled old.length answers f := filled_fill old.length answers
  have hplaced : placed = ⟨f.complete, f.asked.map fun missing => ⟨old.length - missing, missing⟩,
      f.bytes ++ old.drop f.bytes.length⟩ := fillPlaced_eq [] old answers
  have hcount : placed.calls.length = f.asked.length := by
    rw [hplaced, List.length_map]
  have hwritten : written = f.bytes := by
    rw [hfilled.bytes, ← hcount]
  have hcomplete : placed.complete = f.complete := by
    rw [hplaced]
  have hbuffer : placed.buffer = written ++ old.drop written.length := by
    rw [hwritten, hplaced]
  refine ⟨⟨hcomplete, ?_, ?_⟩, ?_, ?_, ?_, ?_, ?_, ?_⟩
  · rw [hplaced, List.map_map]
    exact List.map_id _
  · have hzeros := fillPlaced_eq [] (List.replicate old.length 0) answers
    rw [List.length_replicate] at hzeros
    refine (congrArg InPlace.buffer hzeros).trans ?_
    rw [List.drop_replicate]
    rfl
  · rw [hcount, hplaced]
    refine (congrArg (List.map _) hfilled.asked).trans ?_
    rw [List.map_map]
    refine List.map_congr_left fun i hi => ?_
    have hmissing := hfilled.missing i (List.mem_range.mp hi)
    rw [Function.comp_apply, Nat.sub_sub_self (Nat.le_of_lt hmissing)]
  · rw [hcount]
    exact hfilled.missing
  · rw [hcomplete]
    exact hfilled.complete
  · intro h
    have hreached := hfilled.reached (hcomplete ▸ h)
    rw [← hcount] at hreached
    have hlength : written.length = old.length := by
      rw [List.length_take]
      exact Nat.min_eq_left hreached
    refine ⟨?_, hlength⟩
    rw [hbuffer, hlength, List.drop_length, List.append_nil]
  · intro h
    rw [hcount]
    exact ⟨hfilled.refused (hcomplete ▸ h), hbuffer⟩
  · rintro rfl
    have hfull : placed = ⟨true, [], []⟩ := fillPlaced_full [] answers
    rw [hfull]
    exact ⟨rfl, rfl⟩

/-- A buffer of five bytes. -/
def used : Bytes := [0xa, 0xb, 0xc, 0xd, 0xe]

/-- Two pieces and what may come between them. -/
def hesitant : List Answer := [.interrupted, .delivered [1, 2], .interrupted, .delivered [3]]

/-- A source that fails leaves the end of the buffer; one that goes on fills it and is not asked for
what it has beyond that. -/
theorem fill_exact_hesitant :
    let failing := fillPlaced ⟨used, 0⟩ (hesitant ++ [.failed, .delivered [4, 5]])
    let filling := fillPlaced ⟨used, 0⟩ (hesitant ++ [.delivered [4, 5], .delivered [6]])
    failing.complete = false ∧ failing.calls = [⟨0, 5⟩, ⟨0, 5⟩, ⟨2, 3⟩, ⟨2, 3⟩, ⟨3, 2⟩] ∧
      failing.buffer = [1, 2, 3, 0xd, 0xe] ∧
      filling.complete = true ∧ filling.calls = [⟨0, 5⟩, ⟨0, 5⟩, ⟨2, 3⟩, ⟨2, 3⟩, ⟨3, 2⟩] ∧
      filling.buffer = [1, 2, 3, 4, 5] ∧
      (fillPlaced ⟨[], 0⟩ hesitant).calls = [] := by
  intro failing filling
  have hfails : failing.complete = false := by decide
  have hfills : filling.complete = true := by decide
  obtain ⟨-, -, -, -, -, hrefused, -⟩ := fill_exact used (hesitant ++ [.failed, .delivered [4, 5]])
  obtain ⟨-, -, -, -, hreached, -, -⟩ :=
    fill_exact used (hesitant ++ [.delivered [4, 5], .delivered [6]])
  obtain ⟨-, -, -, -, -, -, hnone⟩ := fill_exact [] hesitant
  exact ⟨hfails, by decide, (hrefused hfails).2.trans (by decide), hfills, by decide,
    (hreached hfills).1.trans (by decide), (hnone rfl).2⟩

end SshCert.Entropy
