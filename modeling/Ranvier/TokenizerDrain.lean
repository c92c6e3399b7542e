import Ranvier.Progress
import Ranvier.TokenizerPool

/-!
# The tokenizer thread pool drains

What `TokenizerPool` leaves open: whether a future is answered at all. A job can be lost, when
the pool is stopped or a post to the reactor fails. Otherwise it is with the worker or on
its way back (`Covered`), and one of the two threads can go on with it
(`exists_settling_step`), so that the pool can always finish what it has
(`pool_drains`).
-/

namespace Ranvier

namespace TokenizerPool

section Drain

variable {fromBlobJSON : List UInt8 → Option Encode} {c : Config} {h : List Action} {s s' : Pool}
  {w : Worker} {a : Action}

/-- Neither a stop nor a post that fails. -/
def Lossless : Action → Prop
  | .stopWorker => False
  | .stop => False
  | .processJob posted => posted = true
  | _ => True

/-- What the two threads do on their own to finish the jobs there are. -/
def Settles : Action → Prop
  | .runMessage _ => True
  | .readShutdown => True
  | .pop => True
  | .processJob posted => posted = true
  | _ => False

/-- The job is with the worker, or its result is under way. -/
def UnderWay (s : Pool) (j : ℕ) : Prop :=
  (∃ w, s.worker = some w ∧ ∃ job ∈ w.jobs, job.jobId = j) ∨ ∃ m ∈ s.inbox, m.jobId = j

/-- Nothing has been lost so far. -/
structure Covered (s : Pool) : Prop where
  /-- the reactor is not joining -/
  notJoining : s.joining = false
  /-- the worker is not shut down -/
  up : ∀ w, s.worker = some w → w.shutdown = false ∧ w.phase ≠ .exited
  /-- results will be taken -/
  callback : s.worker.isSome ∨ s.inbox ≠ [] → s.callback = true
  /-- the job of every promise is under way -/
  underWay : ∀ j i, s.pendingJobs.find j = some i → UnderWay s j

theorem Covered.nil : Covered {} := by
  refine ⟨rfl, ?_, ?_, ?_⟩
  · intro w hw
    cases hw
  · rintro (hw | hinbox)
    · cases hw
    · exact absurd rfl hinbox
  · intro j i hfind
    cases hfind

/-- Queueing a job keeps the others under way. -/
theorem mem_jobs_queued {job : Job} (hjob : job ∈ w.jobs) (new : Job) :
    job ∈ ({ w with jobQueue := w.jobQueue ++ [new] } : Worker).jobs := by
  unfold Worker.jobs at hjob ⊢
  cases hphase : w.phase <;> simp only [hphase] at hjob ⊢
  case holding held =>
    rcases List.mem_cons.mp hjob with rfl | hjob
    · exact List.mem_cons_self
    · exact List.mem_cons_of_mem _ (List.mem_append_left _ hjob)
  all_goals exact List.mem_append_left _ hjob

theorem new_mem_jobs (w : Worker) (new : Job) :
    new ∈ ({ w with jobQueue := w.jobQueue ++ [new] } : Worker).jobs := by
  have hqueue : new ∈ w.jobQueue ++ [new] := List.mem_append_right _ (List.mem_singleton_self new)
  unfold Worker.jobs
  cases hphase : w.phase <;> simp only
  case holding held => exact List.mem_cons_of_mem _ hqueue
  all_goals exact hqueue

theorem covered_submitAsync (hcov : Covered s) (text : List UInt8) :
    Covered (submitAsync c s text) := by
  rw [submitAsync]
  split_ifs with huse
  · cases hw : s.worker with
    | none => exact hcov
    | some w =>
      obtain ⟨hdown, hphase⟩ := hcov.up w hw
      have hcallback := hcov.callback (.inl (by rw [hw]; rfl))
      simp only
      split_ifs with hroom hfind
      · refine ⟨hcov.notJoining, fun w' hw' => ?_, fun _ => hcallback, fun j i hj => ?_⟩
        · obtain rfl := Option.some.inj hw'
          exact ⟨hdown, hphase⟩
        · rcases hcov.underWay j i hj with ⟨w', hw', job, hjob, hid⟩ | hinbox
          · obtain rfl := Option.some.inj (hw.symm.trans hw')
            exact .inl ⟨_, rfl, job, mem_jobs_queued hjob _, hid⟩
          · exact .inr hinbox
      · refine ⟨hcov.notJoining, fun w' hw' => ?_, fun _ => hcallback, fun j i hj => ?_⟩
        · obtain rfl := Option.some.inj hw'
          exact ⟨hdown, hphase⟩
        · simp only [KeyedMap.find_set] at hj
          by_cases hnew : j = s.nextJobId
          · exact .inl ⟨_, rfl, _, new_mem_jobs w _, hnew.symm⟩
          · rw [if_neg hnew] at hj
            rcases hcov.underWay j i hj with ⟨w', hw', job, hjob, hid⟩ | hinbox
            · obtain rfl := Option.some.inj (hw.symm.trans hw')
              exact .inl ⟨_, rfl, job, mem_jobs_queued hjob _, hid⟩
            · exact .inr hinbox
      · refine ⟨hcov.notJoining, fun w' hw' => ?_, fun _ => hcallback, fun j i hj => ?_⟩
        · obtain rfl := Option.some.inj hw'
          exact ⟨hdown, hphase⟩
        · rcases hcov.underWay j i hj with ⟨w', hw', job, hjob, hid⟩ | hinbox
          · obtain rfl := Option.some.inj (hw.symm.trans hw')
            exact .inl ⟨_, rfl, job, hjob, hid⟩
          · exact .inr hinbox
  · exact hcov

/-- A message that is run leaves only promises whose jobs are under way without it. -/
theorem covered_runMessage (hcov : Covered s) {i : ℕ} (hrun : runMessage c s i = some s') :
    Covered s' ∧ s'.worker = s.worker ∧ s'.inbox.length < s.inbox.length ∧
      (s'.tickets = s.tickets ∨ ∃ k r, s'.tickets = resolve s.tickets k r) := by
  rw [runMessage] at hrun
  cases hm : s.inbox[i]? with
  | none =>
    rw [hm] at hrun
    cases hrun
  | some m =>
    obtain ⟨hi, hget⟩ := List.getElem?_eq_some_iff.mp hm
    have hcallback : s.callback = true := by
      refine hcov.callback (.inr fun hnil => ?_)
      rw [hnil] at hi
      exact absurd hi (Nat.not_lt_zero _)
    have hlength : (s.inbox.eraseIdx i).length < s.inbox.length := by
      rw [List.length_eraseIdx_of_lt hi]
      omega
    -- the other messages are still there
    have hothers : ∀ {j}, j ≠ m.jobId → UnderWay s j →
        (∃ w, s.worker = some w ∧ ∃ job ∈ w.jobs, job.jobId = j) ∨
          ∃ m ∈ s.inbox.eraseIdx i, m.jobId = j := by
      rintro j hj (hjob | ⟨m', hm', rfl⟩)
      · exact .inl hjob
      · refine .inr ⟨m', ?_, rfl⟩
        obtain ⟨k, hk⟩ := List.mem_iff_getElem?.mp hm'
        refine List.mem_eraseIdx_iff_getElem?.mpr ⟨k, fun hki => hj ?_, hk⟩
        rw [hki, hm] at hk
        rw [Option.some.inj hk]
    simp only [hm, hcallback, if_true] at hrun
    obtain rfl := Option.some.inj hrun
    rw [completeJob]
    cases hfind : s.pendingJobs.find m.jobId with
    | none =>
      dsimp only
      refine ⟨⟨hcov.notJoining, hcov.up, fun _ => rfl, fun j k hj => ?_⟩, rfl, hlength,
        .inl rfl⟩
      refine hothers (fun heq => ?_) (hcov.underWay j k hj)
      rw [heq, hfind] at hj
      cases hj
    | some k =>
      dsimp only
      refine ⟨⟨hcov.notJoining, hcov.up, fun _ => rfl, fun j k' hj => ?_⟩, rfl, hlength,
        .inr ⟨k, _, rfl⟩⟩
      simp only [KeyedMap.find_erase] at hj
      by_cases heq : j = m.jobId
      · rw [if_pos heq] at hj
        cases hj
      · rw [if_neg heq] at hj
        exact hothers heq (hcov.underWay j k' hj)

/-- The worker changes, and with the inbox it has every job it had. -/
theorem Covered.changed (hcov : Covered s) (hw : s.worker = some w) {w' : Worker}
    {inbox : List Message} (hup : w'.shutdown = false ∧ w'.phase ≠ .exited)
    (hinbox : ∀ m ∈ s.inbox, m ∈ inbox)
    (hjobs : ∀ job ∈ w.jobs, job ∈ w'.jobs ∨ ∃ m ∈ inbox, m.jobId = job.jobId) :
    Covered { s with worker := some w', inbox := inbox } := by
  refine ⟨hcov.notJoining, fun w'' hw'' => ?_, fun _ => hcov.callback (.inl (by rw [hw]; rfl)),
    fun j i hj => ?_⟩
  · obtain rfl := Option.some.inj hw''
    exact hup
  · rcases hcov.underWay j i hj with ⟨w'', hw'', job, hjob, rfl⟩ | ⟨m, hm, hid⟩
    · obtain rfl := Option.some.inj (hw.symm.trans hw'')
      rcases hjobs job hjob with hjob | hm
      · exact .inl ⟨w', rfl, job, hjob, rfl⟩
      · exact .inr hm
    · exact .inr ⟨m, hinbox m hm, hid⟩

/-- What is left to do. -/
def todo (s : Pool) : ℕ :=
  (match s.worker with
    | none => 0
    | some w => 5 * w.jobQueue.length +
      match w.phase with
      | .holding _ => 3
      | .idle => 1
      | _ => 0) + s.inbox.length

/-- A step of the worker keeps every job, makes `todo` smaller if it has a job, and gives no
values. -/
theorem covered_workerStep (hcov : Covered s) (hw : s.worker = some w) (hlossless : Lossless a)
    (hstep : workerStep s w a = some s') :
    Covered s' ∧ s'.tickets = s.tickets ∧ (w.jobs ≠ [] → todo s' < todo s) := by
  obtain ⟨hdown, -⟩ := hcov.up w hw
  have htodo : todo s = (5 * w.jobQueue.length +
      match w.phase with
      | .holding _ => 3
      | .idle => 1
      | _ => 0) + s.inbox.length := by rw [todo, hw]
  cases a with
  | readShutdown =>
    rw [workerStep] at hstep
    cases hphase : w.phase with
    | idle =>
      simp only [hphase, hdown, Bool.false_eq_true, if_false] at hstep htodo
      obtain rfl := Option.some.inj hstep
      refine ⟨hcov.changed hw ⟨rfl, Phase.noConfusion⟩ (fun m hm => hm) fun job hjob => .inl ?_,
        rfl, fun _ => ?_⟩
      · simpa only [Worker.jobs, hphase] using hjob
      · rw [htodo]
        simp only [todo]
        omega
    | ready => simp only [hphase, reduceCtorEq] at hstep
    | holding job => simp only [hphase, reduceCtorEq] at hstep
    | exited => simp only [hphase, reduceCtorEq] at hstep
  | pop =>
    rw [workerStep] at hstep
    cases hphase : w.phase with
    | ready =>
      simp only [hphase] at hstep htodo
      have hjobs : w.jobs = w.jobQueue := by simp only [Worker.jobs, hphase]
      rw [hjobs]
      cases hqueue : w.jobQueue with
      | nil =>
        simp only [hqueue] at hstep
        obtain rfl := Option.some.inj hstep
        refine ⟨hcov.changed hw ⟨hdown, Phase.noConfusion⟩ (fun m hm => hm) fun job hjob => ?_,
          rfl, fun hne => absurd rfl hne⟩
        rw [hjobs, hqueue] at hjob
        cases hjob
      | cons job rest =>
        simp only [hqueue] at hstep
        obtain rfl := Option.some.inj hstep
        refine ⟨hcov.changed hw ⟨hdown, Phase.noConfusion⟩ (fun m hm => hm)
          fun job' hjob => .inl ?_, rfl, fun _ => ?_⟩
        · rw [hjobs, hqueue] at hjob
          exact hjob
        · rw [htodo, hqueue, List.length_cons]
          simp only [todo]
          omega
    | idle => simp only [hphase, reduceCtorEq] at hstep
    | holding job => simp only [hphase, reduceCtorEq] at hstep
    | exited => simp only [hphase, reduceCtorEq] at hstep
  | processJob posted =>
    obtain rfl : posted = true := hlossless
    rw [workerStep] at hstep
    cases hphase : w.phase with
    | holding job =>
      simp only [hphase] at hstep htodo
      obtain rfl := Option.some.inj hstep
      rw [processJob, if_pos rfl]
      refine ⟨hcov.changed hw ⟨hdown, Phase.noConfusion⟩ (fun m hm => List.mem_append_left _ hm)
        fun job' hjob => ?_, rfl, fun _ => ?_⟩
      · simp only [Worker.jobs, hphase] at hjob
        rcases List.mem_cons.mp hjob with rfl | hjob
        · exact .inr ⟨_, List.mem_append_right _ (List.mem_singleton_self _), rfl⟩
        · exact .inl hjob
      · rw [htodo]
        simp only [todo, List.length_append, List.length_singleton]
        omega
    | idle => simp only [hphase, reduceCtorEq] at hstep
    | ready => simp only [hphase, reduceCtorEq] at hstep
    | exited => simp only [hphase, reduceCtorEq] at hstep
  | _ => cases hstep

theorem covered_startWorker (hs : Sound c h s) (hcov : Covered s)
    (hstart : startWorker fromBlobJSON c s = some s') : Covered s' := by
  rw [startWorker] at hstart
  split_ifs at hstart with hrunning hoff
  · obtain rfl := Option.some.inj hstart
    exact hcov
  · obtain rfl := Option.some.inj hstart
    refine ⟨hcov.notJoining, fun w hw => ?_, fun _ => rfl, fun j i hj => ?_⟩
    · obtain rfl := Option.some.inj hw
      cases fromBlobJSON s.tokenizerJson <;> exact ⟨rfl, Phase.noConfusion⟩
    · -- a worker that is replaced did not run and had no jobs
      rcases hcov.underWay j i hj with ⟨w, hw, job, hjob, -⟩ | hinbox
      · rw [hw] at hrunning
        have hrest := hs.atRest w hw (by simpa using hrunning)
        rw [hrest] at hjob
        cases hjob
      · exact .inr hinbox

theorem covered_step (hs : Sound c h s) (hcov : Covered s) (hlossless : Lossless a)
    (hstep : step fromBlobJSON c s a = some s') : Covered s' := by
  have hworker : (a = .readShutdown ∨ a = .pop ∨ ∃ posted, a = .processJob posted) →
      Covered s' := by
    intro ha
    obtain ⟨w, hw, -, hstep⟩ := step_worker ha hstep
    exact (covered_workerStep hcov hw hlossless hstep).1
  cases a with
  | readShutdown => exact hworker (.inl rfl)
  | pop => exact hworker (.inr (.inl rfl))
  | processJob posted => exact hworker (.inr (.inr ⟨posted, rfl⟩))
  | joined =>
    rw [step] at hstep
    split at hstep
    · rw [if_neg (by rw [hcov.notJoining]; decide)] at hstep
      cases hstep
    · cases hstep
  | loadTokenizer json =>
    rw [step] at hstep
    split_ifs at hstep
    obtain rfl := Option.some.inj hstep
    exact ⟨hcov.notJoining, hcov.up, hcov.callback, hcov.underWay⟩
  | startWorker =>
    rw [step] at hstep
    split_ifs at hstep
    exact covered_startWorker hs hcov hstep
  | submitAsync text =>
    rw [step] at hstep
    split_ifs at hstep
    obtain rfl := Option.some.inj hstep
    exact covered_submitAsync hcov text
  | runMessage i =>
    rw [step] at hstep
    split_ifs at hstep
    exact (covered_runMessage hcov hstep).1
  | stopWorker => exact hlossless.elim
  | stop => exact hlossless.elim

/-- The futures of `s₀` are still there, each for the same text. -/
def Follows (s₀ s : Pool) : Prop :=
  ∀ (i : ℕ) (t : Ticket), s₀.tickets[i]? = some t →
    ∃ u : Ticket, s.tickets[i]? = some u ∧ u.text = t.text ∧ u.tokenizer = t.tokenizer

theorem Follows.resolve {s₀ : Pool} (hfollows : Follows s₀ s)
    (htickets : s'.tickets = s.tickets ∨ ∃ k r, s'.tickets = TokenizerPool.resolve s.tickets k r) :
    Follows s₀ s' := by
  intro i t ht
  obtain ⟨u, hu, htext, htokenizer⟩ := hfollows i t ht
  rcases htickets with hsame | ⟨k, r, hresolve⟩
  · rw [hsame]
    exact ⟨u, hu, htext, htokenizer⟩
  · rw [hresolve, getElem?_resolve, hu]
    by_cases hik : i = k
    · rw [if_pos hik]
      exact ⟨u.given r, rfl, htext, htokenizer⟩
    · rw [if_neg hik]
      exact ⟨u, rfl, htext, htokenizer⟩

/-- No job is with the worker and no result under way. -/
def Drained (s : Pool) : Prop := (∀ w, s.worker = some w → w.jobs = []) ∧ s.inbox = []

/-- While a job is under way, one of the threads can go on with it. -/
theorem exists_settling_step {s₀ : Pool} (hs : Sound c h s) (hcov : Covered s)
    (hfollows : Follows s₀ s)
    (hbusy : ¬ Drained s) :
    ∃ b s', Settles b ∧ step fromBlobJSON c s b = some s' ∧ Lossless b ∧ Follows s₀ s' ∧
      todo s' < todo s := by
  have hnot : ¬ s.joining = true := by
    rw [hcov.notJoining]
    decide
  by_cases hinbox : s.inbox = []
  · -- the worker has a job, so it runs
    have hjob : ∃ w, s.worker = some w ∧ w.jobs ≠ [] := by
      by_contra hnone
      exact hbusy ⟨fun w hw => by_contra fun hne => hnone ⟨w, hw, hne⟩, hinbox⟩
    obtain ⟨w, hw, hjobs⟩ := hjob
    have hrunning : w.running = true := by
      by_contra hrest
      exact hjobs (hs.atRest w hw (by simpa using hrest))
    have hgo : ∀ {b m}, Settles b → Lossless b → workerStep s w b = some m →
        step fromBlobJSON c s b = workerStep s w b →
        ∃ b s', Settles b ∧ step fromBlobJSON c s b = some s' ∧ Lossless b ∧ Follows s₀ s' ∧
          todo s' < todo s := by
      intro b m hb hlossless hm heq
      obtain ⟨-, htickets, hless⟩ := covered_workerStep hcov hw hlossless hm
      exact ⟨b, m, hb, heq.trans hm, hlossless, hfollows.resolve (.inl htickets), hless hjobs⟩
    cases hphase : w.phase with
    | idle =>
      refine @hgo .readShutdown _ trivial trivial (by rw [workerStep, hphase]) ?_
      simp only [step, hw, if_pos hrunning]
    | ready =>
      have hqueue : w.jobQueue ≠ [] := by
        simpa only [Worker.jobs, hphase] using hjobs
      obtain ⟨job, rest, hqueue⟩ := List.exists_cons_of_ne_nil hqueue
      refine @hgo .pop _ trivial trivial (by simp only [workerStep, hphase, hqueue]; rfl) ?_
      simp only [step, hw, if_pos hrunning]
    | holding job =>
      refine @hgo (.processJob true) _ rfl rfl (by rw [workerStep, hphase]) ?_
      simp only [step, hw, if_pos hrunning]
    | exited => exact absurd hphase (hcov.up w hw).2
  · obtain ⟨m, rest, hcons⟩ := List.exists_cons_of_ne_nil hinbox
    have hsome : ∃ s', runMessage c s 0 = some s' := by
      rw [runMessage, hcons]
      exact ⟨_, rfl⟩
    obtain ⟨s', hs'⟩ := hsome
    obtain ⟨-, hworker, hlength, htickets⟩ := covered_runMessage hcov hs'
    refine ⟨.runMessage 0, s', trivial, ?_, trivial, hfollows.resolve htickets, ?_⟩
    · rw [step, if_neg hnot]
      exact hs'
    · simp only [todo, hworker]
      omega

/-- What is kept while the jobs of `s₀` are finished. -/
structure Draining (c : Config) (s₀ s : Pool) : Prop where
  /-- the invariant, and no stop so far -/
  sound : ∃ h, Sound c h s ∧ Action.stop ∉ h
  /-- nothing is lost -/
  covered : Covered s
  /-- the futures are those of `s₀` -/
  follows : Follows s₀ s

theorem Draining.step {s₀ : Pool} (hs : Draining c s₀ s) (hbusy : ¬ Drained s) :
    ∃ b s', Settles b ∧ TokenizerPool.step fromBlobJSON c s b = some s' ∧ Draining c s₀ s' ∧
      todo s' < todo s := by
  obtain ⟨⟨h, hsound, hstop⟩, hcov, hfollows⟩ := hs
  obtain ⟨b, s', hsettles, hstep, hlossless, hfollows', hless⟩ :=
    @exists_settling_step fromBlobJSON c h s s₀ hsound hcov hfollows hbusy
  have hkind : ∀ text, b = .submitAsync text → s.nextJobId + 1 < 2 ^ 64 := by
    rintro text rfl
    exact hsettles.elim
  refine ⟨b, s', hsettles, hstep, ⟨⟨h ++ [b], (sound_step hsound hkind hstep).1, fun hin => ?_⟩,
    covered_step hsound hcov hlossless hstep, hfollows'⟩, hless⟩
  rcases List.mem_append.mp hin with hin | hin
  · exact hstop hin
  · rw [← List.mem_singleton.mp hin] at hsettles
    exact hsettles

/-- A future of a pool that has finished its jobs has its encoding. -/
theorem Draining.answered {s₀ : Pool} (hs : Draining c s₀ s) (hdone : Drained s) {i : ℕ}
    {t : Ticket} (ht : s₀.tickets[i]? = some t) :
    ∃ u : Ticket, s.tickets[i]? = some u ∧ u.text = t.text ∧ u.outcomes = [answer c t] := by
  obtain ⟨⟨h, hsound, hstop⟩, hcov, hfollows⟩ := hs
  obtain ⟨u, hu, htext, htokenizer⟩ := hfollows i t ht
  refine ⟨u, hu, htext, ?_⟩
  rcases hsound.outcomes u (List.mem_of_getElem? hu) with hnone | hone | ⟨-, hin⟩
  · -- a future without a value would have a job under way
    have hfind := (hsound.pendingIff u.jobId i).mpr ⟨u, hu, rfl, hnone⟩
    rcases hcov.underWay _ i hfind with ⟨w, hw, job, hjob, -⟩ | ⟨m, hm, -⟩
    · rw [hdone.1 w hw] at hjob
      cases hjob
    · rw [hdone.2] at hm
      cases hm
  · rw [hone, answer, answer, htext, htokenizer]
  · exact absurd hin hstop

/-- The invariant of a run without stops and failed posts. -/
theorem draining_run {acts : List Action} (hacts : acts.length < 2 ^ 64)
    (hlossless : ∀ a ∈ acts, Lossless a)
    (hrun : exec (TokenizerPool.step fromBlobJSON c) {} acts = some s) : Draining c s s := by
  have hinv := @exec_invariant _ _ (TokenizerPool.step fromBlobJSON c) (fun _ a => Lossless a)
    (fun h s => h.length < 2 ^ 64 → Sound c h s ∧ s.nextJobId ≤ h.length ∧ Covered s ∧
      Action.stop ∉ h)
    (fun {h m a m'} hok hstep hinv hlength => ?_) [] acts {} s (meets_of_forall_mem hlossless) hrun
    fun _ => ⟨Sound.nil, le_refl _, Covered.nil, List.not_mem_nil⟩
  · obtain ⟨hsound, -, hcov, hstop⟩ := hinv hacts
    exact ⟨⟨acts, hsound, hstop⟩, hcov, fun i t ht => ⟨t, ht, rfl, rfl⟩⟩
  · rw [List.length_append, List.length_singleton] at hlength
    obtain ⟨hsound, hnext, hcov, hstop⟩ := hinv (by omega)
    obtain ⟨hsound', hnext'⟩ := sound_step hsound (fun _ _ => by omega) hstep
    refine ⟨hsound', ?_, covered_step hsound hcov hok hstep, fun hin => ?_⟩
    · rw [List.length_append, List.length_singleton]
      omega
    · rcases List.mem_append.mp hin with hin | hin
      · exact hstop hin
      · rw [← List.mem_singleton.mp hin] at hok
        exact hok

/-- **The pool drains.** As long as the pool is not stopped and no post fails, the two threads
can, from every state reached and without any further call, finish every job: each future
then has the encoding of its text. -/
theorem pool_drains {acts : List Action} (hacts : acts.length < 2 ^ 64)
    (hlossless : ∀ a ∈ acts, Lossless a)
    (hrun : exec (TokenizerPool.step fromBlobJSON c) {} acts = some s) :
    ∃ rest s', (∀ a ∈ rest, Settles a) ∧
      exec (TokenizerPool.step fromBlobJSON c) s rest = some s' ∧
      ∀ (i : ℕ) (t : Ticket), s.tickets[i]? = some t →
        ∃ u : Ticket, s'.tickets[i]? = some u ∧ u.text = t.text ∧ u.outcomes = [answer c t] := by
  obtain ⟨rest, s', hrest, hexec, hs', hdone⟩ :=
    exec_reaches todo (fun _ hm hbusy => hm.step hbusy) (draining_run hacts hlossless hrun)
  exact ⟨rest, s', hrest, hexec, fun i t ht => hs'.answered hdone ht⟩

theorem pool_drains_submitted :
    ∃ s rest s', exec (TokenizerPool.step byteTokens smallTexts) {} submitted = some s ∧
      exec (TokenizerPool.step byteTokens smallTexts) s rest = some s' ∧
      ∀ (i : ℕ) (t : Ticket), s.tickets[i]? = some t →
        ∃ u : Ticket, s'.tickets[i]? = some u ∧ u.text = t.text ∧
          u.outcomes = [answer smallTexts t] := by
  have hrun := @exec_eq_some_getD _ _ (TokenizerPool.step byteTokens smallTexts) {} submitted
    (by decide)
  obtain ⟨rest, s', -, hrest⟩ := pool_drains (by decide) (by simp [submitted, Lossless]) hrun
  exact ⟨_, rest, s', hrun, hrest⟩

end Drain

end TokenizerPool

end Ranvier
