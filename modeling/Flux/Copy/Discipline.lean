import Flux.Copy.Guarded
import Flux.Wal.Canonical

namespace Flux.Copy

open Base Wal

variable {job : Job}

def World.fresh (w : World) : World := { w with held := none, calls := [] }

lemma live_fresh (w : World) : Live w.dest False (scene w.fresh) :=
  ⟨rfl, rfl, iff_of_false Bool.false_ne_true id, rfl⟩

/-- After a guard that failed the copy made no change, and it failed itself, with an error that names the
temporary if it had one open. -/
def Heeds {α : Type} (job : Job) (x : M CopyError α) (w : World) : Prop :=
  (watch (x w).2.calls).late = false ∧
    ((watch (x w).2.calls).lost = true → ∃ e, (x w).1 = .error e ∧ ((x w).2.held ≠ none → Names job e))

/-- Moreover each change the copy made is covered by a guard that succeeded after the change before it. -/
def Disciplined {α : Type} (job : Job) (x : M CopyError α) (w : World) : Prop :=
  (watch (x w).2.calls).bare = false ∧ Heeds job x w

lemma disciplined_of_ends {α : Type} {x : M CopyError α} {w : World} {d : Option Entry} {b : Prop}
    (h : wp x (fun _ w' => ∃ d', Live d' b (scene w')) (fun e w' => Ended job d b e (scene w')) w) :
    Heeds job x w ∧ (Disciplined job x w ↔ ¬ b) := by
  rw [wp] at h
  have hboth : Heeds job x w ∧ ((watch (x w).2.calls).bare = true ↔ b) := by
    rw [Heeds]
    rcases hx : x w with ⟨e | a, w'⟩ <;> rw [hx] at h
    · exact ⟨⟨h.ontime, fun hl => ⟨e, rfl, h.reported hl⟩⟩, h.bare⟩
    · obtain ⟨d', h⟩ := h
      exact ⟨⟨h.ontime, fun hl => absurd (h.locked.symm.trans hl) Bool.false_ne_true⟩, h.bare⟩
  rw [Disciplined, and_iff_left hboth.1, ← Bool.not_eq_true, hboth.2]
  exact ⟨hboth.1, Iff.rfl⟩

/-- Every copy stops at a guard that fails. It keeps the whole discipline exactly if it does not start over:
then it removes what is under the temporary's name and creates the temporary behind one guard. -/
theorem disciplined_iff (job : Job) (refusal : FsError → CopyError) (w : World) :
    (Heeds job (copyFileCheckpointed job refusal) w.fresh ∧
      (Disciplined job (copyFileCheckpointed job refusal) w.fresh ↔ ¬ StartsOver job w.fresh)) ∧
    (Heeds job (stageThenPublish job) w.fresh ∧
      (Disciplined job (stageThenPublish job) w.fresh ↔ ¬ StartsOver job w.fresh)) :=
  ⟨disciplined_of_ends (ends_copyFileCheckpointed job refusal (live_fresh w) rfl),
    disciplined_of_ends (ends_stageThenPublish job (live_fresh w) rfl)⟩

def stalePartial : World where
  files := ⟨some ⟨.file, .strong ⟨1, 7⟩, some 1, [9]⟩, ⟨[], []⟩, none, none⟩
  dest := none
  held := none
  answers := []
  sinkAnswers := []
  schedules := []
  sources := []
  calls := []

def staleJob : Job where
  blake3 := zeroHash
  source := ⟨[1, 2], .file, none, none, .strong ⟨1, 5⟩, some 1⟩
  existing := none
  name := [97]
  nameText := "a"
  opts := ⟨.off, .off, .normal, .replace, .default, [105], .overwrite, .copy, false, .none, default⟩
  sync := .staging
  hook := some (.logFree 0)
  created := .strong ⟨1, 8⟩
  parallel := false
  spawns := false

theorem staleJob_undisciplined :
    ∃ o w', copyFileCheckpointed staleJob (.atStep .claim) stalePartial.fresh = (.ok o, w') ∧
    w'.dest = some ⟨.file, .strong ⟨1, 8⟩, some 1, [1, 2]⟩ ∧
    [(Call.createNew, true), (Call.removeTemp, true), (Call.guard, true)] <:+: w'.calls ∧
    ¬ Disciplined staleJob (copyFileCheckpointed staleJob (.atStep .claim)) stalePartial.fresh := by
  refine ⟨_, _, rfl, rfl, ⟨[(.rename, true), (.guard, true), (.beat, true), (.beforePublish, true),
    (.identity, true), (.metadataSource, true), (.beat, true), (.write, true)], _, rfl⟩, fun h => ?_⟩
  exact Bool.false_ne_true h.1.symm

theorem failed_copy_accounted (job : Job) (refusal : FsError → CopyError) (w w' : World) (e : CopyError)
    (h : copyFileCheckpointed job refusal w.fresh = (.error e, w')) :
    w'.dest = w.dest ∧
      (w'.held = none ∨ w'.files.temp = none ∨ (∃ why, e.leftover = some (job.temp, why)) ∨
        Deliberate job w'.held e) := by
  have hend := ends_copyFileCheckpointed job refusal (live_fresh w) rfl
  rw [wp, h] at hend
  refine ⟨hend.dest, hend.accounted.imp_right (Or.imp_left fun hp => ?_)⟩
  exact Option.isSome_eq_false_iff.mp hp |> Option.isNone_iff_eq_none.mp

def failingWrite : World :=
  { stalePartial with
    dest := some ⟨.file, .strong ⟨1, 9⟩, some 1, [5]⟩
    answers := List.replicate 13 none ++
      [some ⟨⟨.diskFull, .other "full"⟩, 1⟩, none, some ⟨⟨.ioError, .other "busy"⟩, 0⟩] }

theorem failed_copy_accounted_failingWrite : ∃ e w',
    copyFileCheckpointed staleJob (.atStep .claim) failingWrite.fresh = (.error e, w') ∧ w'.held = some .created ∧
      w'.dest = failingWrite.dest ∧ (∃ why, e.leftover = some (staleJob.temp, why)) := by
  refine ⟨_, _, rfl, rfl, ?_⟩
  obtain ⟨hd, hn | hn | hn | hn⟩ := failed_copy_accounted staleJob (.atStep .claim) failingWrite _ _ rfl
  · cases hn
  · cases hn
  · exact ⟨hd, hn⟩
  · obtain ⟨fault, hn⟩ | ⟨hn, -⟩ := hn
    · cases hn
    · cases hn

end Flux.Copy
