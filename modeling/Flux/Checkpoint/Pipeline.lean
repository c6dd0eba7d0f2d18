import Flux.Checkpoint.Worker
import Flux.Wal.Canonical

namespace Flux.Checkpoint

open Base Wal Copy

variable {Dup : Type}

def MainAt.early : MainAt → Bool
  | .holding | .checking _ | .checkingWorker _ | .queueing _ | .waitingFree | .beating | .rechecking
  | .recheckingWorker => true
  | _ => false

def MainAt.phase : MainAt → ℕ
  | .reaping _ | .joining _ => 1
  | .completing _ | .closing | .closed | .ended _ | .discarding | .over => 2
  | _ => 0

def MainAt.owns : MainAt → Bool
  | .holding | .checking _ | .checkingWorker _ | .queueing _ => true
  | _ => false

structure Pipeline.Control (s : Pipeline Dup) : Prop where
  early : s.main.early = true → s.submitOpen = true
  owns : s.main.owns = true → s.caller ≠ none
  joining : s.main.phase ≠ 0 → s.worker.done = true
  joined : s.main.phase = 2 → s.worker = .over
  result : s.result ≠ none → s.worker.done = true ∧ s.main.phase = 0
  reports : s.reports = false → s.worker.done = true
  receives : s.receives = false → s.worker.done = true
  drained : ∀ h, s.worker = .reporting (.ok h) → s.jobs = [] ∧ s.submitOpen = false
  stopped : s.worker = .over → s.receives = false ∧ s.returns = false ∧ s.reports = false

section Control

variable {blake3 : Bytes → Digest} {fileId : Bytes} {perRange : ℕ} {s s' : Pipeline Dup}

namespace MainStep

variable (h : MainStep blake3 fileId s s')

include h

lemma frame : s'.worker = s.worker ∧ s'.receives = s.receives ∧ s'.returns = s.returns ∧ s'.reports = s.reports ∧
    s'.hashed = s.hashed := by
  cases h <;> exact ⟨rfl, rfl, rfl, rfl, rfl⟩

lemma early (he : s'.main.early = true) : s.main.early = true ∧ s'.submitOpen = s.submitOpen := by
  cases h <;> first | exact absurd he Bool.false_ne_true | simp_all [MainAt.early]

lemma owns (ho : s.main.owns = true → s.caller ≠ none) (he : s'.main.owns = true) : s'.caller ≠ none := by
  cases h <;> first | exact absurd he Bool.false_ne_true | simp_all [MainAt.owns]

lemma phase (hp : s'.main.phase ≠ 0) : s.main.phase ≠ 0 ∨ s.result ≠ none ∨ s.reports = false := by
  cases h <;> first | exact absurd rfl hp | simp_all [MainAt.phase]

lemma joined (hp : s'.main.phase = 2) : s.main.phase = 2 ∨ s.worker = .over := by
  cases h <;>
    first | exact absurd hp (Nat.succ_ne_zero 1).symm | exact absurd hp (by decide) | simp_all [MainAt.phase]

lemma result (hr : s'.result ≠ none) : s.result ≠ none ∧ (s.main.phase = 0 → s'.main.phase = 0) := by
  cases h <;> first | exact absurd rfl hr | simp_all [MainAt.phase]

lemma jobs : s'.jobs = s.jobs ∧ s'.submitted = s.submitted ∨
    s.main.early = true ∧ ∃ job, s'.jobs = s.jobs ++ [job] ∧ s'.submitted = s.submitted ++ [job.data] := by
  cases h <;> first | exact .inl ⟨rfl, rfl⟩ | skip
  next here _ _ _ => exact .inr ⟨by rw [here]; rfl, _, rfl, rfl⟩

lemma submitOpen (hs : s.submitOpen = false) : s'.submitOpen = false := by
  cases h <;> first | exact hs | rfl

end MainStep

namespace WorkerStep

variable (h : WorkerStep blake3 fileId perRange s s')

include h

lemma frame : s'.main = s.main ∧ s'.caller = s.caller ∧ s'.submitOpen = s.submitOpen ∧
    s'.submitted = s.submitted := by
  cases h <;> exact ⟨rfl, rfl, rfl, rfl⟩

lemma not_over : s.worker ≠ .over := by
  cases h <;> simp_all [WorkerAt.done]
  rintro ho
  simp_all

lemma done (hd : s.worker.done = true) : s'.worker.done = true ∧ s'.result = s.result := by
  cases h <;> simp_all [WorkerAt.done]

lemma result (hr : s'.result ≠ none) : s.result ≠ none ∨ s'.worker.done = true ∧ s.worker.done = false := by
  cases h <;> first | exact .inl hr | simp_all [WorkerAt.done]

lemma flags : (s'.reports = false → s.reports = false ∨ s'.worker.done = true) ∧
    (s'.receives = false → s.receives = false ∨ s'.worker.done = true) := by
  cases h <;> simp_all [WorkerAt.done]

lemma queue_drained {e : Hashes} (hw : s'.worker = .reporting (.ok e)) : s'.jobs = [] ∧ s'.submitOpen = false := by
  cases h <;> simp_all

lemma worker_stopped (hw : s'.worker = .over) : s'.receives = false ∧ s'.returns = false ∧ s'.reports = false := by
  cases h <;> simp_all

end WorkerStep

lemma MainStep.control (h : MainStep blake3 fileId s s') (hc : s.Control) : s'.Control := by
  obtain ⟨hworker, hreceives, hreturns, hreports, -⟩ := h.frame
  refine ⟨?_, h.owns hc.owns, ?_, ?_, ?_, ?_, ?_, ?_, ?_⟩
  · intro he
    obtain ⟨hbefore, hopen⟩ := h.early he
    rw [hopen]
    exact hc.early hbefore
  · intro hp
    rw [hworker]
    rcases h.phase hp with hp | hr | hr
    · exact hc.joining hp
    · exact (hc.result hr).1
    · exact hc.reports hr
  · intro hp
    rw [hworker]
    exact (h.joined hp).elim hc.joined id
  · intro hr
    obtain ⟨hbefore, hphase⟩ := h.result hr
    rw [hworker]
    exact ⟨(hc.result hbefore).1, hphase (hc.result hbefore).2⟩
  · rw [hworker, hreports]
    exact hc.reports
  · rw [hworker, hreceives]
    exact hc.receives
  · intro e hw
    obtain ⟨hjobs, hclosed⟩ := hc.drained e (hworker ▸ hw)
    refine ⟨?_, h.submitOpen hclosed⟩
    rcases h.jobs with ⟨hsame, -⟩ | ⟨hearly, -⟩
    · rw [hsame, hjobs]
    · rw [hc.early hearly] at hclosed
      cases hclosed
  · rw [hworker, hreceives, hreturns, hreports]
    exact hc.stopped

lemma WorkerStep.control (h : WorkerStep blake3 fileId perRange s s') (hc : s.Control) : s'.Control := by
  obtain ⟨hmain, hcaller, hopen, -⟩ := h.frame
  refine ⟨?_, ?_, ?_, ?_, ?_, ?_, ?_, fun e => h.queue_drained, h.worker_stopped⟩
  · rw [hmain, hopen]
    exact hc.early
  · rw [hmain, hcaller]
    exact hc.owns
  · rw [hmain]
    exact fun hp => (h.done (hc.joining hp)).1
  · rw [hmain]
    exact fun hp => absurd (hc.joined hp) h.not_over
  · rw [hmain]
    intro hr
    rcases h.result hr with hr | ⟨hdone, hbefore⟩
    · exact ⟨(h.done (hc.result hr).1).1, (hc.result hr).2⟩
    · refine ⟨hdone, ?_⟩
      by_contra hp
      rw [hc.joining hp] at hbefore
      cases hbefore
  · exact fun hr => (h.flags.1 hr).elim (fun hr => (h.done (hc.reports hr)).1) id
  · exact fun hr => (h.flags.2 hr).elim (fun hr => (h.done (hc.receives hr)).1) id

lemma PipelineStep.control (h : PipelineStep blake3 fileId perRange s s') (hc : s.Control) : s'.Control := by
  cases h with
  | main step => exact step.control hc
  | worker step => exact step.control hc
  | logFails f before after =>
    subst after
    exact ⟨hc.early, hc.owns, hc.joining, hc.joined, hc.result, hc.reports, hc.receives, hc.drained, hc.stopped⟩

def WorkerAt.unhashed : WorkerAt → List Bytes
  | .got _ job => [job.data]
  | _ => []

def Pipeline.InOrder (s : Pipeline Dup) : Prop :=
  ∃ lost, s.submitted = s.hashed ++ s.worker.unhashed ++ lost ++ s.jobs.map Job.data ∧
    (s.worker.done = false → lost = [])

lemma MainStep.inOrder (h : MainStep blake3 fileId s s') (ho : s.InOrder) : s'.InOrder := by
  obtain ⟨lost, hsubmitted, hlost⟩ := ho
  obtain ⟨hworker, -, -, -, hhashed⟩ := h.frame
  refine ⟨lost, ?_, hworker ▸ hlost⟩
  rw [hworker, hhashed]
  rcases h.jobs with ⟨hjobs, hsame⟩ | ⟨-, job, hjobs, hmore⟩
  · rw [hjobs, hsame, hsubmitted]
  · rw [hjobs, hmore, hsubmitted, List.map_append, ← List.append_assoc]
    rfl

lemma WorkerStep.inOrder (h : WorkerStep blake3 fileId perRange s s') (ho : s.InOrder) : s'.InOrder := by
  obtain ⟨lost, hsubmitted, hlost⟩ := ho
  cases h with
  | jobsDropped here =>
    refine ⟨lost ++ s.jobs.map Job.data, ?_, ?_⟩
    · simp [hsubmitted]
    · simp [here, WorkerAt.done]
  | panicked here =>
    refine ⟨s.worker.unhashed ++ lost, ?_, ?_⟩
    · simp [hsubmitted, WorkerAt.unhashed]
    · simp [WorkerAt.done]
  | _ =>
    refine ⟨lost, ?_, ?_⟩ <;> simp_all [WorkerAt.unhashed, WorkerAt.done]

def WorkerAt.pending (fileId : Bytes) (perRange : ℕ) : WorkerAt → Option (Hashes × List Wal.Range)
  | .top h | .receiving h | .got h _ | .reporting (.ok h) => some (h, [])
  | .returning h _ done | .looping h done | .asking h done => some (h.pushAll fileId perRange done)
  | .sending h r done | .attempting h r done | .retrying h r done =>
    some ((h.pushAll fileId perRange done).1, r :: (h.pushAll fileId perRange done).2)
  | .recording _ | .reporting (.error _) | .leaving | .over => none

lemma not_done_of_pending {w : WorkerAt} {p : Hashes × List Wal.Range} (h : w.pending fileId perRange = some p) :
    w.done = false := by
  cases w <;> first | rfl | cases h

section Tracks

variable (blake3 fileId perRange) (sent₀ : List (Msg Dup)) (h₀ : Hashes)

structure Pipeline.Whole (s : Pipeline Dup) (h : Hashes) : Prop where
  sent : s.sent = sent₀ ++ (h₀.feedAll fileId perRange blake3 s.submitted).2.map .range
  hashes : h = (h₀.feedAll fileId perRange blake3 s.submitted).1
  hashed : s.hashed = s.submitted
  closed : s.submitOpen = false

structure Pipeline.Tracks (s : Pipeline Dup) : Prop where
  working : ∀ p, s.worker.pending fileId perRange = some p →
    s.sent ++ p.2.map .range = sent₀ ++ (h₀.feedAll fileId perRange blake3 s.hashed).2.map .range ∧
      p.1 = (h₀.feedAll fileId perRange blake3 s.hashed).1
  handed : ∀ h, s.result = some (.ok h) ∨ s.main = .reaping (some (.ok h)) ∨ s.main = .completing h →
    s.Whole blake3 fileId perRange sent₀ h₀ h
  closing : s.main = .closing → s.submitOpen = false ∧ s.sent = sent₀ ++
    ((h₀.feedAll fileId perRange blake3 s.submitted).2 ++
      (h₀.feedAll fileId perRange blake3 s.submitted).1.last fileId blake3).map .range
  closed : s.main = .closed → s.submitOpen = false ∧ s.sent = sent₀ ++
    ((h₀.feedAll fileId perRange blake3 s.submitted).2 ++
      (h₀.feedAll fileId perRange blake3 s.submitted).1.last fileId blake3).map .range ++ [.close fileId true]

end Tracks

namespace MainStep

variable (h : MainStep blake3 fileId s s')

include h

lemma sent : s'.sent = s.sent ∨ s.main.phase = 2 := by
  cases h <;> first | exact .inl rfl | simp_all [MainAt.phase]

lemma handed {e : Hashes} (he : s'.result = some (.ok e) ∨ s'.main = .reaping (some (.ok e)) ∨
    s'.main = .completing e) :
    (s.result = some (.ok e) ∨ s.main = .reaping (some (.ok e)) ∨ s.main = .completing e) ∧
      (s'.sent = s.sent ∨ s.main.phase = 2 ∧ s'.result = some (.ok e)) := by
  cases h <;> simp_all [MainAt.phase]

lemma closing (hm : s'.main = .closing) : ∃ e, s.main = .completing e ∧
    s'.sent = s.sent ++ (e.last fileId blake3).map .range ∧ s'.submitted = s.submitted ∧
    s'.submitOpen = s.submitOpen := by
  cases h <;> simp_all

lemma closed (hm : s'.main = .closed) : s.main = .closing ∧ s'.sent = s.sent ++ [.close fileId true] ∧
    s'.submitted = s.submitted ∧ s'.submitOpen = s.submitOpen := by
  cases h <;> simp_all

end MainStep

section Tracks

variable {sent₀ : List (Msg Dup)} {h₀ : Hashes}

lemma MainStep.tracks (h : MainStep blake3 fileId s s') (hc : s.Control)
    (ht : s.Tracks blake3 fileId perRange sent₀ h₀) : s'.Tracks blake3 fileId perRange sent₀ h₀ := by
  obtain ⟨hworker, -, -, -, hhashed⟩ := h.frame
  refine ⟨?_, ?_, ?_, ?_⟩
  · intro p hp
    rw [hworker] at hp
    rw [hhashed]
    -- The copy thread only sends when the worker is gone.
    rcases h.sent with hsent | hphase
    · rw [hsent]
      exact ht.working p hp
    · have hdone := not_done_of_pending hp
      rw [hc.joining (by omega)] at hdone
      cases hdone
  · intro e he
    obtain ⟨hbefore, hsent⟩ := h.handed he
    obtain ⟨hw1, hw2, hw3, hw4⟩ := ht.handed e hbefore
    have hsubmitted : s'.submitted = s.submitted := by
      rcases h.jobs with ⟨-, hsame⟩ | ⟨hearly, -⟩
      · exact hsame
      · rw [hc.early hearly] at hw4
        cases hw4
    have hsame : s'.sent = s.sent := by
      rcases hsent with hsent | ⟨hphase, hresult⟩
      · exact hsent
      · have hr : s'.result ≠ none := by rw [hresult]; simp
        have := (hc.result (h.result hr).1).2
        omega
    refine ⟨?_, ?_, ?_, h.submitOpen hw4⟩
    · rw [hsame, hsubmitted, hw1]
    · rw [hsubmitted, hw2]
    · rw [hhashed, hsubmitted, hw3]
  · intro hm
    obtain ⟨e, he, hsent, hsubmitted, hopen⟩ := h.closing hm
    obtain ⟨hw1, hw2, -, hw4⟩ := ht.handed e (.inr (.inr he))
    refine ⟨hopen.trans hw4, ?_⟩
    rw [hsent, hsubmitted, hw1, ← hw2, List.map_append, List.append_assoc]
  · intro hm
    obtain ⟨he, hsent, hsubmitted, hopen⟩ := h.closed hm
    obtain ⟨hclosed, hbefore⟩ := ht.closing he
    refine ⟨hopen.trans hclosed, ?_⟩
    rw [hsent, hsubmitted, hbefore]

lemma WorkerStep.still (h : WorkerStep blake3 fileId perRange s s') (hd : s.worker.done = true) :
    s'.sent = s.sent ∧ s'.hashed = s.hashed := by
  cases h <;> simp_all [WorkerAt.done]

lemma WorkerStep.reports_ok {e : Hashes} (h : WorkerStep blake3 fileId perRange s s')
    (hr : s'.result = some (.ok e)) :
    s.result = some (.ok e) ∨ s.worker = .reporting (.ok e) ∧ s'.sent = s.sent ∧ s'.hashed = s.hashed := by
  cases h <;> simp_all

lemma WorkerStep.working (h : WorkerStep blake3 fileId perRange s s')
    (ht : s.Tracks blake3 fileId perRange sent₀ h₀)
    (p : Hashes × List Wal.Range) (hp : s'.worker.pending fileId perRange = some p) :
    s'.sent ++ p.2.map .range = sent₀ ++ (h₀.feedAll fileId perRange blake3 s'.hashed).2.map .range ∧
      p.1 = (h₀.feedAll fileId perRange blake3 s'.hashed).1 := by
  have hbefore := ht.working
  cases h with
  | hashed here =>
    obtain ⟨hsent, hhashes⟩ := hbefore _ (by rw [here]; rfl)
    cases hp
    rw [Hashes.feedAll_append, ← hhashes, List.map_append, ← List.append_assoc, ← hsent]
    simp [Hashes.feedAll, Hashes.feed]
  | gathered here filled =>
    obtain ⟨hsent, hhashes⟩ := hbefore _ (by rw [here]; rfl)
    cases hp
    simp only [Hashes.pushAll, filled, List.nil_append] at hsent hhashes
    exact ⟨hsent, hhashes⟩
  | filled here filled =>
    obtain ⟨hsent, hhashes⟩ := hbefore _ (by rw [here]; rfl)
    cases hp
    simp only [Hashes.pushAll, filled] at hsent hhashes
    exact ⟨hsent, hhashes⟩
  | sent here =>
    obtain ⟨hsent, hhashes⟩ := hbefore _ (by rw [here]; rfl)
    cases hp
    rw [List.map_cons] at hsent
    rw [List.append_assoc]
    exact ⟨hsent, hhashes⟩
  | nextJob here | notCancelled here | received here | drained here | returned here | sendNotCancelled here
  | sendFull here | retry here | logFine here =>
    exact hbefore p (by rw [here]; exact hp)
  | jobsDropped here | freeDropped here | resultDropped here =>
    rw [here] at hp
    cases hp
  | _ => cases hp

lemma WorkerStep.tracks (h : WorkerStep blake3 fileId perRange s s') (hc : s.Control) (ho : s.InOrder)
    (ht : s.Tracks blake3 fileId perRange sent₀ h₀) : s'.Tracks blake3 fileId perRange sent₀ h₀ := by
  obtain ⟨hmain, -, hopen, hsubmitted⟩ := h.frame
  have hkept {e : Hashes} (hdone : s.worker.done = true) (hw : s.Whole blake3 fileId perRange sent₀ h₀ e) :
      s'.Whole blake3 fileId perRange sent₀ h₀ e := by
    obtain ⟨hsent, hhashed⟩ := h.still hdone
    refine ⟨?_, ?_, ?_, hopen.trans hw.closed⟩
    · rw [hsent, hsubmitted, hw.sent]
    · rw [hsubmitted, ← hw.hashes]
    · rw [hhashed, hsubmitted, hw.hashed]
  refine ⟨h.working ht, ?_, ?_, ?_⟩
  · rw [hmain]
    rintro e (hr | hm)
    · rcases h.reports_ok hr with hr | ⟨hw, hsent, hhashed⟩
      · exact hkept (hc.result (by rw [hr]; simp)).1 (ht.handed e (.inl hr))
      · obtain ⟨hjobs, hclosed⟩ := hc.drained e hw
        obtain ⟨lost, hall, hlost⟩ := ho
        obtain ⟨hranges, hhashes⟩ := ht.working (e, []) (by rw [hw]; rfl)
        have hsame : s.submitted = s.hashed := by
          rw [hall, hlost (by rw [hw]; rfl), hjobs, hw]
          simp [WorkerAt.unhashed]
        rw [List.map_nil, List.append_nil] at hranges
        refine ⟨?_, ?_, ?_, hopen.trans hclosed⟩
        · rw [hsent, hsubmitted, hsame, hranges]
        · rw [hsubmitted, hsame, ← hhashes]
        · rw [hhashed, hsubmitted, hsame]
    · refine hkept (hc.joining ?_) (ht.handed e (.inr hm))
      rcases hm with hm | hm <;> rw [hm] <;> simp [MainAt.phase]
  · rw [hmain]
    intro hm
    exact absurd (hc.joined (by rw [hm]; rfl)) h.not_over
  · rw [hmain]
    intro hm
    exact absurd (hc.joined (by rw [hm]; rfl)) h.not_over

end Tracks

end Control

section Runs

variable {blake3 : Bytes → Digest} {f : Feed Dup} {carry : Bytes} {s : Pipeline Dup}

structure Feed.Invariant (blake3 : Bytes → Digest) (f : Feed Dup) (carry : Bytes) (s : Pipeline Dup) : Prop where
  places : ∀ b, s.places.count b ≤ if b < pool then 1 else 0
  control : s.Control
  inOrder : s.InOrder
  tracks : s.Tracks blake3 f.fileId f.perRange
    (f.opened ++ ((Hashes.start f.validThrough).feed f.fileId f.perRange blake3 carry).2.map .range)
    ((Hashes.start f.validThrough).feed f.fileId f.perRange blake3 carry).1

lemma Feed.spawned_invariant (first : Bytes) : f.Invariant blake3 carry (f.spawned blake3 carry first) := by
  refine ⟨?_, ?_, ⟨[], rfl, fun _ => rfl⟩, ?_⟩
  · intro b
    have hplaces : (f.spawned blake3 carry first).places = List.range pool := rfl
    rw [hplaces, List.count_range]
  · refine ⟨fun _ => rfl, fun _ => ?_, ?_, ?_, ?_, ?_, ?_, ?_, ?_⟩ <;> simp [Feed.spawned, MainAt.phase]
  · refine ⟨?_, ?_, ?_, ?_⟩
    · rintro p ⟨⟩
      exact ⟨rfl, rfl⟩
    all_goals simp [Feed.spawned]

lemma Feed.Reaches.invariant (h : f.Reaches blake3 carry s) : f.Invariant blake3 carry s := by
  induction h with
  | spawned first => exact Feed.spawned_invariant first
  | step before step ih =>
    obtain ⟨hplaces, hcontrol, horder, htracks⟩ := ih
    have hnext := step.control hcontrol
    cases step with
    | main step =>
      exact ⟨fun b => (step.places b).trans (hplaces b), hnext, step.inOrder horder, step.tracks hcontrol htracks⟩
    | worker step =>
      exact ⟨fun b => (step.places b).trans (hplaces b), hnext, step.inOrder horder,
        step.tracks hcontrol horder htracks⟩
    | logFails fault before after =>
      subst after
      refine ⟨hplaces, hnext, horder, htracks.working, ?_, htracks.closing, htracks.closed⟩
      intro e he
      obtain ⟨hsent, hhashes, hhashed, hclosed⟩ := htracks.handed e he
      exact ⟨hsent, hhashes, hhashed, hclosed⟩

def MainAt.waits : MainAt → ℕ
  | .waitingFree | .reaping _ | .joining _ => 1
  | .recheckingWorker | .finishing | .awaiting _ => 2
  | .rechecking | .hangingUp _ | .awaitBeating _ => 3
  | .beating | .cancelling _ => 4
  | .finishBeating => 5
  | _ => 0

variable {s' : Pipeline Dup}

variable {fileId : Bytes}

lemma MainStep.waits (h : MainStep blake3 fileId s s') (hc : s.Control) (ho : s.worker = .over)
    (hw : s.main.waits ≠ 0) : s'.main.waits < s.main.waits := by
  obtain ⟨-, hreturns, hreports⟩ := hc.stopped ho
  cases h with
  | abort here | drop here => rcases here with hm | ⟨e, hm⟩ <;> exact absurd (by rw [hm]; rfl) hw
  | _ => simp_all [MainAt.waits]

lemma Pipeline.Control.wait_step (fileId : Bytes) (hc : s.Control) (ho : s.worker = .over)
    (hw : s.main.waits ≠ 0) : ∃ s', MainStep blake3 fileId s s' := by
  obtain ⟨-, hreturns, hreports⟩ := hc.stopped ho
  cases hm : s.main with
  | waitingFree =>
    cases hf : s.free with
    | nil => exact ⟨_, .freeGone hm hf hreturns⟩
    | cons buf rest => exact ⟨_, .freed hm hf⟩
  | beating => exact ⟨_, .beat hm⟩
  | rechecking =>
    cases hf : s.walFault with
    | none => exact ⟨_, .logStillFine hm hf⟩
    | some fault => exact ⟨_, .logFailedSince hm hf⟩
  | recheckingWorker =>
    cases hf : s.faulted with
    | none => exact ⟨_, .workerStillFine hm hf⟩
    | some fault => exact ⟨_, .workerFailedSince hm hf⟩
  | finishing =>
    cases hr : s.result with
    | none => exact ⟨_, .finishGone hm hr hreports⟩
    | some r => exact ⟨_, .finished hm hr⟩
  | finishBeating => exact ⟨_, .finishBeat hm⟩
  | reaping r =>
    rcases r with _ | _ | _
    · exact ⟨_, .reapedGone hm ho⟩
    · exact ⟨_, .reapedFault hm ho⟩
    · exact ⟨_, .reapedEnd hm ho⟩
  | cancelling why => exact ⟨_, .cancelled hm⟩
  | hangingUp why => exact ⟨_, .hungUp hm⟩
  | awaiting why =>
    cases hr : s.result with
    | none => exact ⟨_, .awaitGone hm hr hreports⟩
    | some r => exact ⟨_, .awaited hm hr⟩
  | awaitBeating why => exact ⟨_, .awaitBeat hm⟩
  | joining why =>
    cases why with
    | abort => exact ⟨_, .joinedAbort hm ho⟩
    | drop => exact ⟨_, .joinedDrop hm ho⟩
    | lost e => exact ⟨_, .joinedLost hm ho⟩
  | _ => exact absurd (by rw [hm]; rfl) hw

def MainAt.quiet : MainAt → Bool
  | .closing | .closed | .ended _ | .discarding | .over => true
  | _ => false

def rangesIn (sent : List (Msg Dup)) : List Wal.Range :=
  sent.filterMap fun
    | .range r => some r
    | _ => none

lemma MainStep.quiet (h : MainStep blake3 fileId s s') (hq : s.main.quiet = true) :
    s'.main.quiet = true ∧ rangesIn s'.sent = rangesIn s.sent := by
  cases h with
  | abort here | drop here => rcases here with hm | ⟨e, hm⟩ <;> simp [hm, MainAt.quiet] at hq
  | _ => simp_all [MainAt.quiet, rangesIn]

lemma phase_of_quiet {m : MainAt} (h : m.quiet = true) : m.phase = 2 := by
  cases m <;> first | rfl | cases h

lemma PipelineStep.quiet {perRange : ℕ} (h : PipelineStep blake3 fileId perRange s s') (hc : s.Control)
    (hq : s.main.quiet = true) : s'.main.quiet = true ∧ rangesIn s'.sent = rangesIn s.sent := by
  cases h with
  | main step => exact step.quiet hq
  | worker step => exact absurd (hc.joined (phase_of_quiet hq)) step.not_over
  | logFails fault before after =>
    subst after
    exact ⟨hq, rfl⟩

inductive Feed.Later (blake3 : Bytes → Digest) (f : Feed Dup) (s : Pipeline Dup) : Pipeline Dup → Prop
  | now : Later blake3 f s s
  | step {s' s'' : Pipeline Dup} (before : Later blake3 f s s')
    (step : PipelineStep blake3 f.fileId f.perRange s' s'') : Later blake3 f s s''

lemma Feed.Later.quiet (h : f.Later blake3 s s') (hc : s.Control) (hq : s.main.quiet = true) :
    s'.Control ∧ s'.main.quiet = true ∧ rangesIn s'.sent = rangesIn s.sent := by
  induction h with
  | now => exact ⟨hc, hq, rfl⟩
  | step before step ih =>
    obtain ⟨hc', hq', hsame⟩ := ih
    obtain ⟨hnext, hranges⟩ := step.quiet hc' hq'
    exact ⟨step.control hc', hnext, hranges.trans hsame⟩

theorem pipeline_bounded (blake3 : Bytes → Digest) (f : Feed Dup) (carry : Bytes) (s : Pipeline Dup)
    (h : f.Reaches blake3 carry s) :
    (s.places.Nodup ∧ s.places.length ≤ pool) ∧
      (∀ data, s.main = .queueing data → s.jobs.length < pool) ∧
      s.hashed <+: s.submitted ∧
      (s.worker = .over → s.main.waits ≠ 0 → (∃ s', MainStep blake3 f.fileId s s') ∧
        ∀ s', MainStep blake3 f.fileId s s' → s'.main.waits < s.main.waits) ∧
      (s.main.quiet = true → s.worker = .over ∧
        ∀ s', f.Later blake3 s s' → rangesIn s'.sent = rangesIn s.sent) := by
  obtain ⟨hplaces, hcontrol, ⟨lost, horder, -⟩, -⟩ := h.invariant
  have hnodup : s.places.Nodup := by
    rw [List.nodup_iff_count_le_one]
    intro b
    refine (hplaces b).trans ?_
    split <;> omega
  have hsubset : s.places ⊆ List.range pool := by
    intro b hb
    have hpos := List.count_pos_iff.mpr hb
    have hle := hplaces b
    rw [List.mem_range]
    by_contra hb'
    rw [if_neg hb'] at hle
    omega
  have hlength : s.places.length ≤ pool := by
    have hle := (List.subperm_of_subset hnodup hsubset).length_le
    rwa [List.length_range] at hle
  refine ⟨⟨hnodup, hlength⟩, ?_, ?_, ?_, ?_⟩
  · intro data hm
    obtain ⟨buf, hbuf⟩ := Option.ne_none_iff_exists'.mp (hcontrol.owns (by rw [hm]; rfl))
    simp only [Pipeline.places, hbuf, Option.toList_some, List.length_append, List.length_map,
      List.length_singleton] at hlength
    omega
  · rw [horder, List.append_assoc, List.append_assoc]
    exact List.prefix_append _ _
  · intro ho hw
    exact ⟨hcontrol.wait_step f.fileId ho hw, fun s' step => step.waits hcontrol ho hw⟩
  · intro hq
    exact ⟨hcontrol.joined (phase_of_quiet hq), fun s' hlater => (hlater.quiet hcontrol hq).2.2⟩

def oneByte (rangeChunks : ℕ) : Feed Unit :=
  ⟨[7], [100], ⟨1, .file, none, none, FileIdentity.unavailable, none⟩, 0, none, rangeChunks, [], [[1]]⟩

theorem pipeline_bounded_panicked : ∃ s s' : Pipeline Unit,
    ((oneByte 2).Reaches zeroHash [] s ∧ s.jobs = [⟨1, [2]⟩] ∧ s.worker.unhashed = [[1]] ∧ s.places.Nodup ∧
      s.places.length ≤ pool) ∧
    (oneByte 2).Reaches zeroHash [] s' ∧ s'.worker = .over ∧ s'.main = .waitingFree ∧
      s'.hashed <+: s'.submitted ∧ ∃ s'', MainStep zeroHash [7] s' s'' ∧ s''.main.waits < s'.main.waits := by
  have h1 : (oneByte 2).Reaches zeroHash [] _ := .spawned [1]
  have h2 := ((h1.step (.main (.logFine rfl rfl))).step (.main (.workerFine rfl rfl))).step
    (.main (.queued rfl rfl rfl (by decide)))
  have h3 := ((h2.step (.main (.freed rfl rfl))).step (.worker (.notCancelled rfl rfl))).step
    (.worker (.received rfl rfl))
  have h4 := ((h3.step (.main (.submit [2] rfl))).step (.main (.logFine rfl rfl))).step
    (.main (.workerFine rfl rfl))
  have h5 := h4.step (.main (.queued rfl rfl rfl (by decide)))
  have h6 := ((h5.step (.worker (.panicked rfl))).step (.worker (.jobsDropped rfl))).step
    (.worker (.freeDropped rfl))
  have h7 := (h6.step (.worker (.resultDropped rfl))).step (.worker (.left rfl rfl rfl rfl))
  obtain ⟨⟨hnodup, hlength⟩, -⟩ := pipeline_bounded zeroHash (oneByte 2) [] _ h5
  obtain ⟨-, -, hhashed, hwaits, -⟩ := pipeline_bounded zeroHash (oneByte 2) [] _ h7
  obtain ⟨⟨s'', step⟩, hless⟩ := hwaits rfl (by decide)
  exact ⟨_, _, ⟨h5, rfl, rfl, hnodup, hlength⟩, h7, rfl, rfl, hhashed, s'', step, hless s'' step⟩

end Runs

end Flux.Checkpoint
