import Fortuna.Proofs.CommandLine.Drawing

/-!
# Writing what is drawn

A program writes its pieces to an output that may be anything (`Plan.write`), while a
report tells what a run leaves behind at an output that takes so many bytes
(`Plan.report`).  The loops behind the two are one: at such an output (`Pipe`), the
program draws and writes the pieces that the report draws, and ends with its generator
or its error (`writePieces_pipe`).

A source without an end is drawn from only as long as its reader takes what it gives,
so that it does not matter how many of its pieces a program is prepared to write
(`draw_eq_of_lt`).  A run therefore ends as it is reported (`Invocation.report_eq_of_write`).
-/

namespace Fortuna

namespace CommandLine

/-- An output whose reader takes so many more bytes, and the pieces written to it, latest
first. -/
structure Pipe where
  pieces : List Bytes
  room : Option Nat

/-- The reader closes the output during the first piece that is more than it takes. -/
def Pipe.write (bytes : Bytes) : StateM Pipe Written :=
  modifyGet fun p =>
    (if p.room.any (· < bytes.length) then .closed else .taken,
      ⟨bytes :: p.pieces, p.room.map (· - bytes.length)⟩)

section

variable {drawn : List Bytes} {wanted : Option Nat} {bytes : Bytes}

theorem Pipe.write_of_closed (hlast : wanted.any (· < bytes.length) = true) :
    Pipe.write bytes ⟨drawn, wanted⟩ =
      (.closed, ⟨bytes :: drawn, wanted.map (· - bytes.length)⟩) :=
  congrArg (·, _) (if_pos hlast)

theorem Pipe.write_of_taken (hmore : ¬ wanted.any (· < bytes.length) = true) :
    Pipe.write bytes ⟨drawn, wanted⟩ =
      (.taken, ⟨bytes :: drawn, wanted.map (· - bytes.length)⟩) :=
  congrArg (·, _) (if_neg hmore)

end

/-- How a program ends after it has drawn. -/
def Drawn.ending (d : Drawn) : Except RunError (Generator cipher) :=
  match d.error with
  | some e => .error (.generator e)
  | none => .ok d.generator

/-- At an output that takes so many bytes, pieces are written as they are drawn. -/
theorem writePieces_pipe (piece : Step cipher GeneratorError Bytes) (drawn : List Bytes)
    (wanted : Option Nat) (g : Generator cipher) (k : Nat) :
    let run : _ × Pipe := writePieces Pipe.write piece g k ⟨drawn, wanted⟩
    run.1 = (draw piece drawn wanted g k).ending ∧
      run.2.pieces = (draw piece drawn wanted g k).pieces := by
  induction k generalizing drawn wanted g with
  | zero => exact ⟨rfl, rfl⟩
  | succ k ih =>
      cases hresult : (piece g).result with
      | error e =>
          rw [draw_of_error hresult, writePieces, hresult]
          exact ⟨rfl, rfl⟩
      | ok bytes =>
          by_cases hlast : wanted.any (· < bytes.length) = true
          · rw [draw_of_closed hresult hlast, writePieces, hresult]
            dsimp only [bind, StateT.bind]
            rw [Pipe.write_of_closed hlast]
            exact ⟨rfl, rfl⟩
          · rw [draw_of_taken hresult hlast, writePieces, hresult]
            dsimp only [bind, StateT.bind]
            rw [Pipe.write_of_taken hlast]
            exact ih _ _ _

/-- Pieces that are not empty are too much for a reader who takes fewer bytes than there
are pieces, so that it does not matter how many more there are. -/
theorem draw_eq_of_lt {piece : Step cipher GeneratorError Bytes}
    (hpiece : ∀ g bytes, (piece g).result = .ok bytes → bytes ≠ [])
    {w k k' : Nat} (hk : w < k) (hk' : w < k') (drawn : List Bytes) (g : Generator cipher) :
    draw piece drawn (some w) g k = draw piece drawn (some w) g k' := by
  induction k generalizing w k' drawn g with
  | zero => exact absurd hk (Nat.not_lt_zero w)
  | succ k ih =>
      obtain ⟨k', rfl⟩ := Nat.exists_eq_succ_of_ne_zero (Nat.ne_zero_of_lt hk')
      cases hresult : (piece g).result with
      | error e => rw [draw_of_error hresult, draw_of_error hresult]
      | ok bytes =>
          by_cases hlast : (some w).any (· < bytes.length) = true
          · rw [draw_of_closed hresult hlast, draw_of_closed hresult hlast]
          · have hpos : 0 < bytes.length := List.length_pos_iff.mpr (hpiece g bytes hresult)
            have htaken : ¬ w < bytes.length := fun hlt => hlast (decide_eq_true hlt)
            have hrest : w - bytes.length < k := by omega
            have hrest' : w - bytes.length < k' := by omega
            rw [draw_of_taken hresult hlast, draw_of_taken hresult hlast]
            exact ih hrest hrest' _ _

/-- What a program is prepared to write is as much as a reader with a limit lets it draw. -/
theorem Plan.drawn_eq_draw (p : Plan) {wanted : Option Nat}
    (hendless : p.source.pieces = none →
      (∀ g bytes, (p.source.piece g).result = .ok bytes → bytes ≠ []) ∧
        ∃ w ∈ wanted, w < 2 ^ 64) :
    p.drawn wanted = draw p.source.piece [] wanted p.generator p.source.count := by
  rw [drawn, Source.times, Source.count]
  cases hpieces : p.source.pieces with
  | some k => rfl
  | none =>
      obtain ⟨hpiece, w, rfl, hw⟩ := hendless hpieces
      exact draw_eq_of_lt hpiece (Nat.lt_succ_self w) hw _ _

namespace Invocation

variable {i : Invocation} {host : Host} {p : Plan}

/-- Only a stream has no end, and its pieces are not empty. -/
theorem pieces_of_plan (hplan : i.plan host = .ok p) (hendless : p.source.pieces = none) :
    (∃ chunk, i.task = .stream chunk) ∧
      ∀ g bytes, (p.source.piece g).result = .ok bytes → bytes ≠ [] := by
  have hsource : ∃ c, p.source = i.task.source c := by
    unfold plan at hplan
    split at hplan
    · cases hplan
    · rename_i c _
      split at hplan
      · cases hplan
      · exact ⟨c, congrArg Plan.source (Except.ok.inj hplan).symm⟩
  obtain ⟨c, hsource⟩ := hsource
  rw [hsource, Task.pieces_source] at hendless
  obtain ⟨chunk, htask⟩ := Task.exists_stream_of_requests hendless
  rw [hsource, htask]
  refine ⟨⟨chunk, rfl⟩, fun g bytes hbytes => ?_⟩
  have hlength : bytes.length = max 1 (chunk.getD c.streamChunk) :=
    Generator.length_of_result_ok hbytes
  rw [← List.length_pos_iff, hlength]
  exact Nat.le_max_left 1 _

/-- A run that is prepared ends as it is reported, when its program writes to an output
that takes so many bytes; of a stream, fewer than a program is prepared to write. -/
theorem report_eq_of_write (hplan : i.plan host = .ok p) {wanted : Option Nat}
    (hstream : ∀ chunk, i.task = .stream chunk → ∃ w ∈ wanted, w < 2 ^ 64) :
    let run : _ × Pipe := p.write Pipe.write ⟨[], wanted⟩
    let written := run.2.pieces.reverse.flatten
    let output := wanted.elim written written.take
    let log := p.opening ++ p.source.notice
    i.report host wanted =
      match run.1 with
      | .error e => ⟨1, output, log, e.text⟩
      | .ok g => ⟨0, output, log ++ [closingLog g], closingNotes p.printMetrics g⟩ := by
  intro run written output log
  have hdrawn : p.drawn wanted = _ := p.drawn_eq_draw fun hendless => by
    obtain ⟨⟨chunk, htask⟩, hpiece⟩ := pieces_of_plan hplan hendless
    exact ⟨hpiece, hstream chunk htask⟩
  obtain ⟨hending, hpieces⟩ :=
    writePieces_pipe p.source.piece [] wanted p.generator p.source.count
  have hrun : run.1 = (p.drawn wanted).ending := hdrawn ▸ hending
  have hsame : (p.drawn wanted).pieces = run.2.pieces := hdrawn ▸ hpieces.symm
  have hwritten : (p.drawn wanted).pieces.reverse.flatten = written :=
    congrArg (·.reverse.flatten) hsame
  have houtput : (p.drawn wanted).taken wanted = output := by
    rw [Drawn.taken, hwritten]
  rw [report, hplan, hrun, Drawn.ending]
  dsimp only
  rw [Plan.report, houtput]
  cases (p.drawn wanted).error with
  | some e => rfl
  | none => rfl

end Invocation

end CommandLine

end Fortuna
