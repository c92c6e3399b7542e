import Mathlib.Algebra.Group.Nat.Defs
import Ranvier.KeyedMap
import Ranvier.Run

/-!
# The tokenizer thread pool

`tokenizer_thread_pool.hpp` and `tokenizer_thread_pool.cpp`: the reactor of a shard hands
texts to a worker thread through a bounded queue and keeps a promise for each job; the
worker encodes a text and posts the result back, and the reactor, when it runs the
posted message, fulfils the promise of that job. The two threads interleave freely, except
that the reactor stands still while it joins the worker.

The tokenizer library is a parameter: `fromBlobJSON` gives the `Encode` of the tokenizer
that a JSON text describes, if it describes one, and `Encode` may throw.

* `Sound` — the invariant of the pool and of the futures it gave out;
* `sound_step` — one step of either thread keeps it;
* `tokenizer_pool_contract` — over every interleaving.
-/

namespace Ranvier

namespace TokenizerPool

/-- `Encode` of a tokenizer; `none` when it throws. -/
abbrev Encode : Type := List UInt8 → Option (List ℤ)

/-- `ThreadPoolTokenizationConfig`, with the shard the pool is on. -/
structure Config : Type where
  /-- `enabled` -/
  enabled : Bool := false
  /-- `max_queue_size` -/
  maxQueueSize : ℕ := 256
  /-- `min_text_length` -/
  minTextLength : ℕ := 64
  /-- `max_text_length` -/
  maxTextLength : ℕ := 65536
  /-- `_shard_id` -/
  shardId : ℕ := 0

/-- `ThreadPoolTokenizationResult`. -/
structure Result : Type where
  /-- `tokens` -/
  tokens : List ℤ := []
  /-- `cache_hit` -/
  cacheHit : Bool := false
  /-- `thread_pool` -/
  threadPool : Bool := false
  /-- `source_shard` -/
  sourceShard : ℕ := 0
  deriving DecidableEq

/-- `TokenizationJob`; a pool only ever sends its own shard's jobs. -/
structure Job : Type where
  /-- `job_id` -/
  jobId : ℕ
  /-- `text` -/
  text : List UInt8

/-- A completion posted to the reactor with `alien::run_on`. -/
structure Message : Type where
  /-- `job_id` -/
  jobId : ℕ
  /-- `tokens` -/
  tokens : List ℤ
  /-- `success` -/
  success : Bool

/-- Where the worker thread is in `worker_loop`. -/
inductive Phase : Type where
  /-- before it reads `_shutdown` -/
  | idle
  /-- it has read that the worker is not shut down, and tries to pop a job -/
  | ready
  /-- it has popped a job and is in `process_job` -/
  | holding (job : Job)
  /-- it has left the loop -/
  | exited

/-- `TokenizerWorker`. -/
structure Worker : Type where
  /-- `_tokenizer` -/
  tokenizer : Encode
  /-- `_job_queue` -/
  jobQueue : List Job := []
  /-- `_running` -/
  running : Bool
  /-- `_shutdown` -/
  shutdown : Bool := false
  /-- the thread, where `_thread` is set -/
  phase : Phase := .idle
  /-- `_jobs_processed` -/
  jobsProcessed : ℕ := 0
  /-- `_jobs_dropped` -/
  jobsDropped : ℕ := 0
  /-- `_queue_full_count` -/
  queueFullCount : ℕ := 0

/-- A future that `submit_async` returned: what was asked of which tokenizer, and the values
its promise was given. -/
structure Ticket : Type where
  /-- the job made for it -/
  jobId : ℕ
  /-- the text it was asked for -/
  text : List UInt8
  /-- the tokenizer of the worker it was submitted to -/
  tokenizer : Encode
  /-- the values set -/
  outcomes : List Result := []

/-- `TokenizerThreadPool`, the messages under way to its reactor, and the futures it
returned. -/
structure Pool : Type where
  /-- `_worker` -/
  worker : Option Worker := none
  /-- `_pending_jobs`: the promise of a job, by the number of its future -/
  pendingJobs : KeyedMap ℕ ℕ := {}
  /-- `_next_job_id`, a `uint64_t` -/
  nextJobId : ℕ := 0
  /-- `_jobs_submitted` -/
  jobsSubmitted : ℕ := 0
  /-- `_jobs_completed` -/
  jobsCompleted : ℕ := 0
  /-- `_jobs_fallback` -/
  jobsFallback : ℕ := 0
  /-- `_tokenizer_json` -/
  tokenizerJson : List UInt8 := []
  /-- whether the completion callback of the shard is set -/
  callback : Bool := false
  /-- the reactor is in `_thread->join()` -/
  joining : Bool := false
  /-- the messages posted to the reactor -/
  inbox : List Message := []
  /-- the futures returned -/
  tickets : List Ticket := []

/-- What the two threads do. -/
inductive Action : Type where
  /-- reactor: `load_tokenizer` -/
  | loadTokenizer (json : List UInt8)
  /-- reactor: `start_worker` -/
  | startWorker
  /-- reactor: `submit_async` -/
  | submitAsync (text : List UInt8)
  /-- reactor: it runs one of the posted messages -/
  | runMessage (i : ℕ)
  /-- reactor: `stop_worker`, up to the join -/
  | stopWorker
  /-- reactor: the join returns, and the rest of `stop_worker` -/
  | joined
  /-- reactor: `stop` -/
  | stop
  /-- worker: the read of `_shutdown` in its loop -/
  | readShutdown
  /-- worker: `_job_queue.pop` -/
  | pop
  /-- worker: `process_job`; whether `alien::run_on` takes the message -/
  | processJob (posted : Bool)

/-- A value is set on the promise of a future. -/
def resolve (tickets : List Ticket) (i : ℕ) (r : Result) : List Ticket :=
  tickets.modify i fun t => { t with outcomes := t.outcomes ++ [r] }

/-- `should_use_thread_pool`. -/
def shouldUseThreadPool (c : Config) (s : Pool) (textLength : ℕ) : Bool :=
  c.enabled && (s.worker.any fun w => w.running) &&
    !(textLength < c.minTextLength || textLength > c.maxTextLength)

/-- `submit_async`. -/
def submitAsync (c : Config) (s : Pool) (text : List UInt8) : Pool :=
  if shouldUseThreadPool c s text.length then
    match s.worker with
    | none => s
    | some w =>
      let jobId := s.nextJobId
      let s := { s with nextJobId := (s.nextJobId + 1) % 2 ^ 64 }
      if w.jobQueue.length < c.maxQueueSize then
        { s with
          worker := some { w with jobQueue := w.jobQueue ++ [{ jobId := jobId, text := text }] }
          jobsSubmitted := s.jobsSubmitted + 1
          -- `emplace` keeps an entry that is there
          pendingJobs :=
            if (s.pendingJobs.find jobId).isSome then s.pendingJobs
            else s.pendingJobs.set jobId s.tickets.length
          tickets := s.tickets ++ [{ jobId := jobId, text := text, tokenizer := w.tokenizer }] }
      else
        { s with
          worker := some { w with queueFullCount := w.queueFullCount + 1 }
          jobsFallback := s.jobsFallback + 1 }
  else s

/-- `complete_job`. -/
def completeJob (c : Config) (s : Pool) (m : Message) : Pool :=
  match s.pendingJobs.find m.jobId with
  | none => s
  | some i =>
    { s with
      tickets := resolve s.tickets i
        { tokens := m.tokens, cacheHit := false, threadPool := true, sourceShard := c.shardId }
      pendingJobs := s.pendingJobs.erase m.jobId
      jobsCompleted := s.jobsCompleted + 1 }

/-- A posted message as the reactor runs it. -/
def runMessage (c : Config) (s : Pool) (i : ℕ) : Option Pool :=
  match s.inbox[i]? with
  | none => none
  | some m =>
    let s := { s with inbox := s.inbox.eraseIdx i }
    some (if s.callback then completeJob c s m else s)

/-- `start_worker`. A pool whose worker runs is not started again. -/
def startWorker (fromBlobJSON : List UInt8 → Option Encode) (c : Config) (s : Pool) :
    Option Pool :=
  if (s.worker.any fun w => w.running) then none
  else if !c.enabled || s.tokenizerJson.isEmpty then some s
  else
    -- without a tokenizer `start` returns before it sets `_running`
    let w : Worker :=
      match fromBlobJSON s.tokenizerJson with
      | some tokenizer => { tokenizer := tokenizer, running := true }
      | none => { tokenizer := fun _ => none, running := false }
    some { s with worker := some w, callback := true }

/-- `stop_worker`: a worker that runs is shut down and joined, else there is nothing to
wait for. -/
def stopWorker (s : Pool) : Pool :=
  match s.worker with
  | none => { s with callback := false }
  | some w =>
    if w.running then { s with worker := some { w with shutdown := true }, joining := true }
    else { s with worker := none, callback := false }

/-- `stop`. -/
def stop (s : Pool) : Pool :=
  { s with
    tickets := (s.pendingJobs.entries.map Prod.snd).foldl (fun ts i => resolve ts i {}) s.tickets
    pendingJobs := {}
    callback := false }

/-- `process_job`. -/
def processJob (s : Pool) (w : Worker) (job : Job) (posted : Bool) : Pool :=
  let tokens := w.tokenizer job.text
  let w := { w with phase := .idle, jobsProcessed := w.jobsProcessed + 1 }
  if posted then
    { s with
      worker := some w
      inbox := s.inbox ++ [⟨job.jobId, tokens.getD [], tokens.isSome⟩] }
  else { s with worker := some { w with jobsDropped := w.jobsDropped + 1 } }

/-- One step of the worker thread. -/
def workerStep (s : Pool) (w : Worker) : Action → Option Pool
  | .readShutdown =>
    match w.phase with
    | .idle => some { s with worker := some { w with
        phase := if w.shutdown then .exited else .ready } }
    | _ => none
  | .pop =>
    match w.phase with
    | .ready =>
      match w.jobQueue with
      | [] => some { s with worker := some { w with phase := .idle } }
      | job :: rest =>
        some { s with worker := some { w with jobQueue := rest, phase := .holding job } }
    | _ => none
  | .processJob posted =>
    match w.phase with
    | .holding job => some (processJob s w job posted)
    | _ => none
  | _ => none

/-- One step. The reactor does nothing else while it joins the worker. -/
def step (fromBlobJSON : List UInt8 → Option Encode) (c : Config) (s : Pool) :
    Action → Option Pool
  | .loadTokenizer json => if s.joining then none else some { s with tokenizerJson := json }
  | .startWorker => if s.joining then none else startWorker fromBlobJSON c s
  | .submitAsync text => if s.joining then none else some (submitAsync c s text)
  | .runMessage i => if s.joining then none else runMessage c s i
  | .stopWorker => if s.joining then none else some (stopWorker s)
  | .joined =>
    match s.worker with
    | some { phase := .exited, .. } =>
      if s.joining then some { s with worker := none, joining := false, callback := false }
      else none
    | _ => none
  | .stop => if s.joining then none else some (stop s)
  | a =>
    match s.worker with
    | some w => if w.running then workerStep s w a else none
    | none => none

section Tickets

variable {tickets : List Ticket} {i k : ℕ} {r : Result} {t : Ticket}

/-- A ticket with one more value. -/
def Ticket.given (t : Ticket) (r : Result) : Ticket := { t with outcomes := t.outcomes ++ [r] }

theorem getElem?_resolve :
    (resolve tickets i r)[k]? =
      if k = i then (tickets[k]?).map fun t => t.given r else tickets[k]? := by
  rw [resolve, List.getElem?_modify]
  by_cases hk : k = i
  · simp only [if_pos hk, if_pos hk.symm]
    rfl
  · simp only [if_neg hk, if_neg (Ne.symm hk)]
    exact Option.map_id_apply

/-- One value each for several futures. -/
theorem getElem?_resolveAll {is : List ℕ} (his : is.Nodup) :
    (is.foldl (fun ts i => resolve ts i r) tickets)[k]? =
      if k ∈ is then (tickets[k]?).map fun t => t.given r else tickets[k]? := by
  induction is generalizing tickets with
  | nil => rw [List.foldl_nil, if_neg List.not_mem_nil]
  | cons i is ih =>
    obtain ⟨hi, his⟩ := List.nodup_cons.mp his
    rw [List.foldl_cons, ih his, getElem?_resolve]
    by_cases hk : k = i
    · subst hk
      rw [if_neg hi, if_pos rfl, if_pos List.mem_cons_self]
    · rw [if_neg hk]
      simp only [List.mem_cons, hk, false_or]

theorem length_resolveAll (is : List ℕ) :
    (is.foldl (fun ts i => resolve ts i r) tickets).length = tickets.length := by
  induction is generalizing tickets with
  | nil => rfl
  | cons i is ih => rw [List.foldl_cons, ih, resolve, List.length_modify]

end Tickets

section Invariant

/-- The value a job ends with: the encoding, or nothing if `Encode` threw. -/
def answer (c : Config) (t : Ticket) : Result where
  tokens := (t.tokenizer t.text).getD []
  threadPool := true
  sourceShard := c.shardId

/-- The jobs that a worker has taken and not finished. -/
def Worker.jobs (w : Worker) : List Job :=
  match w.phase with
  | .holding job => job :: w.jobQueue
  | _ => w.jobQueue

/-- The job was made for the ticket. -/
def Job.IsOf (job : Job) (tokenizer : Encode) (t : Ticket) : Prop :=
  t.jobId = job.jobId ∧ t.text = job.text ∧ t.tokenizer = tokenizer

/-- The message has the encoding of the ticket's text. -/
def Message.IsOf (m : Message) (t : Ticket) : Prop :=
  t.jobId = m.jobId ∧ m.tokens = (t.tokenizer t.text).getD []

/-- The invariant after the actions `h`. -/
structure Sound (c : Config) (h : List Action) (s : Pool) : Prop where
  /-- no two futures share a job -/
  idsDistinct : ∀ (i k : ℕ) (t u : Ticket), s.tickets[i]? = some t → s.tickets[k]? = some u →
    t.jobId = u.jobId → i = k
  /-- the next job is a new one -/
  idsBelow : ∀ t ∈ s.tickets, t.jobId < s.nextJobId
  /-- the promises kept are those of the futures without a value -/
  pendingIff : ∀ j i, s.pendingJobs.find j = some i ↔
    ∃ t : Ticket, s.tickets[i]? = some t ∧ t.jobId = j ∧ t.outcomes = []
  /-- a future gets one value, its own encoding or, from `stop`, the empty result -/
  outcomes : ∀ t ∈ s.tickets, t.outcomes = [] ∨ t.outcomes = [answer c t] ∨
    t.outcomes = [{}] ∧ Action.stop ∈ h
  /-- the worker has jobs of this pool, for its own tokenizer -/
  workerJobs : ∀ w, s.worker = some w → ∀ job ∈ w.jobs, ∃ t ∈ s.tickets, job.IsOf w.tokenizer t
  /-- the messages carry what their jobs asked for -/
  messages : ∀ m ∈ s.inbox, ∃ t ∈ s.tickets, m.IsOf t
  /-- the queue is bounded -/
  bounded : ∀ w, s.worker = some w → w.jobQueue.length ≤ c.maxQueueSize
  /-- a worker that does not run has no jobs -/
  atRest : ∀ w, s.worker = some w → w.running = false → w.jobs = []
  /-- every future is counted -/
  submitted : s.jobsSubmitted = s.tickets.length

variable {c : Config} {h : List Action} {s s' : Pool} {w : Worker}

theorem Sound.nil : Sound c [] {} := by
  refine ⟨?_, ?_, ?_, ?_, ?_, ?_, ?_, ?_, rfl⟩
  · intro i k t u ht
    cases ht
  · intro t ht
    cases ht
  · intro j i
    refine ⟨fun hfind => ?_, ?_⟩
    · cases hfind
    · rintro ⟨t, ht, -⟩
      cases ht
  · intro t ht
    cases ht
  · intro w hw
    cases hw
  · intro m hm
    cases hm
  · intro w hw
    cases hw
  · intro w hw
    cases hw

/-- Steps that keep the futures, the promises and the messages. -/
theorem Sound.congr (hs : Sound c h s) {a : Action} (htickets : s'.tickets = s.tickets)
    (hpending : s'.pendingJobs = s.pendingJobs) (hnext : s.nextJobId ≤ s'.nextJobId)
    (hinbox : ∀ m ∈ s'.inbox, m ∈ s.inbox ∨ ∃ t ∈ s.tickets, m.IsOf t)
    (hsubmitted : s'.jobsSubmitted = s.jobsSubmitted)
    (hworker : ∀ w', s'.worker = some w' →
      (∀ job ∈ w'.jobs, ∃ t ∈ s.tickets, job.IsOf w'.tokenizer t) ∧
        w'.jobQueue.length ≤ c.maxQueueSize ∧ (w'.running = false → w'.jobs = [])) :
    Sound c (h ++ [a]) s' := by
  refine ⟨?_, ?_, ?_, ?_, ?_, ?_, ?_, ?_, ?_⟩
  · rw [htickets]
    exact hs.idsDistinct
  · intro t ht
    rw [htickets] at ht
    exact (hs.idsBelow t ht).trans_le hnext
  · rw [htickets, hpending]
    exact hs.pendingIff
  · intro t ht
    rw [htickets] at ht
    rcases hs.outcomes t ht with hnone | hone | ⟨hempty, hstop⟩
    · exact .inl hnone
    · exact .inr (.inl hone)
    · exact .inr (.inr ⟨hempty, List.mem_append_left _ hstop⟩)
  · rw [htickets]
    exact fun w' hw' => (hworker w' hw').1
  · rw [htickets]
    exact fun m hm => (hinbox m hm).elim (hs.messages m) id
  · exact fun w' hw' => (hworker w' hw').2.1
  · exact fun w' hw' => (hworker w' hw').2.2
  · rw [htickets, hsubmitted]
    exact hs.submitted

/-- The futures `is` get the value `r`. -/
theorem Sound.resolved (hs : Sound c h s) {is : List ℕ} (his : is.Nodup) {r : Result}
    {h' : List Action} (hh : ∀ a ∈ h, a ∈ h')
    (hopen : ∀ i ∈ is, ∀ t : Ticket, s.tickets[i]? = some t →
      t.outcomes = [] ∧ (r = answer c t ∨ r = {} ∧ Action.stop ∈ h'))
    (htickets : s'.tickets = is.foldl (fun ts i => resolve ts i r) s.tickets)
    (hpending : ∀ j i, s'.pendingJobs.find j = some i ↔ s.pendingJobs.find j = some i ∧ i ∉ is)
    (hnext : s'.nextJobId = s.nextJobId) (hinbox : ∀ m ∈ s'.inbox, m ∈ s.inbox)
    (hworker : s'.worker = s.worker) (hsubmitted : s'.jobsSubmitted = s.jobsSubmitted) :
    Sound c h' s' := by
  -- a future is what it was, with at most the new value
  have hback : ∀ {k : ℕ} {u : Ticket}, s'.tickets[k]? = some u →
      ∃ t : Ticket, s.tickets[k]? = some t ∧ (k ∉ is ∧ u = t ∨ k ∈ is ∧ u = t.given r) := by
    intro k u hu
    rw [htickets, getElem?_resolveAll his] at hu
    by_cases hk : k ∈ is
    · rw [if_pos hk] at hu
      obtain ⟨t, ht, rfl⟩ := Option.map_eq_some_iff.mp hu
      exact ⟨t, ht, .inr ⟨hk, rfl⟩⟩
    · rw [if_neg hk] at hu
      exact ⟨u, hu, .inl ⟨hk, rfl⟩⟩
  have hforth : ∀ {t}, t ∈ s.tickets →
      ∃ u ∈ s'.tickets, u.jobId = t.jobId ∧ u.text = t.text ∧ u.tokenizer = t.tokenizer := by
    intro t ht
    obtain ⟨k, hk⟩ := List.mem_iff_getElem?.mp ht
    have hu : s'.tickets[k]? = if k ∈ is then some (t.given r) else some t := by
      rw [htickets, getElem?_resolveAll his, hk]
      rfl
    by_cases hmem : k ∈ is
    · rw [if_pos hmem] at hu
      exact ⟨_, List.mem_of_getElem? hu, rfl, rfl, rfl⟩
    · rw [if_neg hmem] at hu
      exact ⟨_, List.mem_of_getElem? hu, rfl, rfl, rfl⟩
  refine ⟨?_, ?_, ?_, ?_, ?_, ?_, ?_, ?_, ?_⟩
  · intro i k t u ht hu heq
    obtain ⟨t', ht', hcase⟩ := hback ht
    obtain ⟨u', hu', hcase'⟩ := hback hu
    refine hs.idsDistinct i k t' u' ht' hu' ?_
    rcases hcase with ⟨-, rfl⟩ | ⟨-, rfl⟩ <;> rcases hcase' with ⟨-, rfl⟩ | ⟨-, rfl⟩ <;> exact heq
  · intro u hu
    obtain ⟨k, hk⟩ := List.mem_iff_getElem?.mp hu
    obtain ⟨t, ht, hcase⟩ := hback hk
    have hlt := hs.idsBelow t (List.mem_of_getElem? ht)
    rw [hnext]
    rcases hcase with ⟨-, rfl⟩ | ⟨-, rfl⟩ <;> exact hlt
  · intro j i
    rw [hpending, hs.pendingIff]
    constructor
    · rintro ⟨⟨t, ht, hid, hnone⟩, hi⟩
      refine ⟨t, ?_, hid, hnone⟩
      rw [htickets, getElem?_resolveAll his, if_neg hi]
      exact ht
    · rintro ⟨u, hu, hid, hnone⟩
      obtain ⟨t, ht, ⟨hi, rfl⟩ | ⟨-, rfl⟩⟩ := hback hu
      · exact ⟨⟨u, ht, hid, hnone⟩, hi⟩
      · exact absurd hnone (List.append_ne_nil_of_right_ne_nil _ (List.cons_ne_nil _ _))
  · intro u hu
    obtain ⟨k, hk⟩ := List.mem_iff_getElem?.mp hu
    obtain ⟨t, ht, ⟨-, rfl⟩ | ⟨hi, rfl⟩⟩ := hback hk
    · rcases hs.outcomes u (List.mem_of_getElem? ht) with hnone | hone | ⟨hempty, hstop⟩
      · exact .inl hnone
      · exact .inr (.inl hone)
      · exact .inr (.inr ⟨hempty, hh _ hstop⟩)
    · obtain ⟨hnone, hr⟩ := hopen k hi t ht
      have hgiven : (t.given r).outcomes = [r] := by
        rw [Ticket.given, hnone]
        rfl
      rcases hr with rfl | ⟨rfl, hstop⟩
      · exact .inr (.inl hgiven)
      · exact .inr (.inr ⟨hgiven, hstop⟩)
  · intro w hw job hjob
    obtain ⟨t, ht, hid, htext, htokenizer⟩ := hs.workerJobs w (hworker ▸ hw) job hjob
    obtain ⟨u, hu, huid, hutext, hutokenizer⟩ := hforth ht
    exact ⟨u, hu, huid.trans hid, hutext.trans htext, hutokenizer.trans htokenizer⟩
  · intro m hm
    obtain ⟨t, ht, hid, htokens⟩ := hs.messages m (hinbox m hm)
    obtain ⟨u, hu, huid, hutext, hutokenizer⟩ := hforth ht
    refine ⟨u, hu, huid.trans hid, ?_⟩
    rw [hutext, hutokenizer]
    exact htokens
  · intro w hw
    exact hs.bounded w (hworker ▸ hw)
  · intro w hw
    exact hs.atRest w (hworker ▸ hw)
  · rw [hsubmitted, hs.submitted, htickets, length_resolveAll]

end Invariant

section Steps

variable {fromBlobJSON : List UInt8 → Option Encode} {c : Config} {h : List Action} {s s' : Pool}
  {w : Worker} {a : Action}

/-- What a step on the worker alone must keep. -/
def WorkerOk (c : Config) (s : Pool) (w : Worker) : Prop :=
  (∀ job ∈ w.jobs, ∃ t ∈ s.tickets, job.IsOf w.tokenizer t) ∧
    w.jobQueue.length ≤ c.maxQueueSize ∧ (w.running = false → w.jobs = [])

theorem Sound.workerOk (hs : Sound c h s) (hw : s.worker = some w) : WorkerOk c s w :=
  ⟨hs.workerJobs w hw, hs.bounded w hw, hs.atRest w hw⟩

theorem WorkerOk.congr {w' : Worker} (hw : WorkerOk c s w) (hjobs : w'.jobs = w.jobs)
    (hqueue : w'.jobQueue = w.jobQueue) (htokenizer : w'.tokenizer = w.tokenizer)
    (hrunning : w'.running = w.running) : WorkerOk c s w' := by
  obtain ⟨hof, hbound, hrest⟩ := hw
  refine ⟨?_, ?_, ?_⟩
  · rw [hjobs, htokenizer]
    exact hof
  · rw [hqueue]
    exact hbound
  · rw [hjobs, hrunning]
    exact hrest

/-- The places of a list that gets a new last element. -/
theorem getElem?_concat_iff {α : Type} {l : List α} {x u : α} {k : ℕ} :
    (l ++ [x])[k]? = some u ↔ l[k]? = some u ∨ k = l.length ∧ u = x := by
  rcases Nat.lt_trichotomy k l.length with hk | rfl | hk
  · rw [List.getElem?_append_left hk]
    exact ⟨.inl, fun hor => hor.resolve_right fun hnew => absurd hnew.1 hk.ne⟩
  · rw [List.getElem?_concat_length, List.getElem?_eq_none (le_refl _)]
    constructor
    · intro hu
      exact .inr ⟨rfl, (Option.some.inj hu).symm⟩
    · rintro (hu | ⟨-, rfl⟩)
      · cases hu
      · rfl
  · rw [List.getElem?_eq_none (by rw [List.length_append]; exact hk),
      List.getElem?_eq_none hk.le]
    exact iff_of_false nofun fun hor => hor.elim nofun fun hnew => hk.ne' hnew.1

/-- The jobs of a worker that gets one more. -/
theorem mem_jobs_enqueue {job new : Job}
    (h : job ∈ ({ w with jobQueue := w.jobQueue ++ [new] } : Worker).jobs) :
    job ∈ w.jobs ∨ job = new := by
  unfold Worker.jobs at h ⊢
  cases hphase : w.phase <;> simp only [hphase] at h ⊢ <;> simpa [or_assoc] using h

/-- The ids are distinct with the next one among them. -/
theorem Sound.idsDistinct_concat (hs : Sound c h s) {new : Ticket}
    (hnew : new.jobId = s.nextJobId) {i k : ℕ} {t u : Ticket}
    (ht : (s.tickets ++ [new])[i]? = some t) (hu : (s.tickets ++ [new])[k]? = some u)
    (heq : t.jobId = u.jobId) : i = k := by
  have hlt : ∀ {k : ℕ} {t : Ticket}, s.tickets[k]? = some t → t.jobId ≠ new.jobId := by
    intro k t ht
    rw [hnew]
    exact (hs.idsBelow t (List.mem_of_getElem? ht)).ne
  rcases getElem?_concat_iff.mp ht with htold | ⟨rfl, rfl⟩ <;>
    rcases getElem?_concat_iff.mp hu with huold | ⟨rfl, rfl⟩
  · exact hs.idsDistinct i k t u htold huold heq
  · exact absurd heq (hlt htold)
  · exact absurd heq.symm (hlt huold)
  · rfl

/-- A promise is kept for the new future too. -/
theorem Sound.pendingIff_concat (hs : Sound c h s) {new : Ticket}
    (hnew : new.jobId = s.nextJobId) (hopen : new.outcomes = []) (j i : ℕ) :
    (if j = s.nextJobId then some s.tickets.length else s.pendingJobs.find j) = some i ↔
      ∃ t, (s.tickets ++ [new])[i]? = some t ∧ t.jobId = j ∧ t.outcomes = [] := by
  by_cases hj : j = s.nextJobId
  · rw [if_pos hj]
    constructor
    · intro hi
      obtain rfl := Option.some.inj hi
      exact ⟨new, getElem?_concat_iff.mpr (.inr ⟨rfl, rfl⟩), hnew.trans hj.symm, hopen⟩
    · rintro ⟨t, ht, hid, -⟩
      rcases getElem?_concat_iff.mp ht with ht | ⟨rfl, -⟩
      · exact absurd (hid.trans hj) (hs.idsBelow t (List.mem_of_getElem? ht)).ne
      · rfl
  · rw [if_neg hj, hs.pendingIff]
    constructor
    · rintro ⟨t, ht, hrest⟩
      exact ⟨t, getElem?_concat_iff.mpr (.inl ht), hrest⟩
    · rintro ⟨t, ht, hid, hnone⟩
      rcases getElem?_concat_iff.mp ht with ht | ⟨-, rfl⟩
      · exact ⟨t, ht, hid, hnone⟩
      · exact absurd (hid.symm.trans hnew) hj

/-- A job for a text is queued, with a promise for a new future. -/
theorem Sound.queued (hs : Sound c h s) (hw : s.worker = some w) (hrunning : w.running = true)
    (hroom : w.jobQueue.length < c.maxQueueSize) (text : List UInt8)
    (htickets : s'.tickets =
      s.tickets ++ [{ jobId := s.nextJobId, text := text, tokenizer := w.tokenizer }])
    (hpending : ∀ j, s'.pendingJobs.find j =
      if j = s.nextJobId then some s.tickets.length else s.pendingJobs.find j)
    (hnext : s'.nextJobId = s.nextJobId + 1) (hinbox : s'.inbox = s.inbox)
    (hworker : s'.worker =
      some { w with jobQueue := w.jobQueue ++ [{ jobId := s.nextJobId, text := text }] })
    (hsubmitted : s'.jobsSubmitted = s.jobsSubmitted + 1) : Sound c (h ++ [a]) s' := by
  have hold : ∀ {t}, t ∈ s.tickets → t ∈ s'.tickets := by
    intro t ht
    rw [htickets]
    exact List.mem_append_left _ ht
  have hmem : ∀ {t}, t ∈ s'.tickets → t ∈ s.tickets ∨
      t = { jobId := s.nextJobId, text := text, tokenizer := w.tokenizer } := by
    intro t ht
    rw [htickets, List.mem_append, List.mem_singleton] at ht
    exact ht
  refine ⟨?_, ?_, ?_, ?_, ?_, ?_, ?_, ?_, ?_⟩
  · rw [htickets]
    intro i k t u
    exact hs.idsDistinct_concat rfl
  · intro t ht
    rw [hnext]
    rcases hmem ht with ht | rfl
    · exact (hs.idsBelow t ht).trans (Nat.lt_succ_self _)
    · exact Nat.lt_succ_self _
  · intro j i
    rw [hpending, htickets]
    exact hs.pendingIff_concat rfl rfl j i
  · intro t ht
    rcases hmem ht with ht | rfl
    · rcases hs.outcomes t ht with hnone | hone | ⟨hempty, hstop⟩
      · exact .inl hnone
      · exact .inr (.inl hone)
      · exact .inr (.inr ⟨hempty, List.mem_append_left _ hstop⟩)
    · exact .inl rfl
  · intro w' hw' job hjob
    obtain rfl := Option.some.inj (hworker.symm.trans hw')
    rcases mem_jobs_enqueue hjob with hjob | rfl
    · obtain ⟨t, ht, hof⟩ := hs.workerJobs w hw job hjob
      exact ⟨t, hold ht, hof⟩
    · refine ⟨{ jobId := s.nextJobId, text := text, tokenizer := w.tokenizer }, ?_, rfl, rfl, rfl⟩
      rw [htickets]
      exact List.mem_append_right _ (List.mem_singleton_self _)
  · intro m hm
    rw [hinbox] at hm
    obtain ⟨t, ht, hof⟩ := hs.messages m hm
    exact ⟨t, hold ht, hof⟩
  · intro w' hw'
    obtain rfl := Option.some.inj (hworker.symm.trans hw')
    rw [List.length_append]
    exact hroom
  · intro w' hw' hrest
    obtain rfl := Option.some.inj (hworker.symm.trans hw')
    exact absurd (hrunning.symm.trans hrest) (by decide)
  · rw [hsubmitted, hs.submitted, htickets, List.length_append]
    rfl

/-- No promise is kept for the next job. -/
theorem Sound.next_not_pending (hs : Sound c h s) : s.pendingJobs.find s.nextJobId = none := by
  cases hfind : s.pendingJobs.find s.nextJobId with
  | none => rfl
  | some i =>
    obtain ⟨t, ht, hid, -⟩ := (hs.pendingIff _ i).mp hfind
    exact absurd hid (hs.idsBelow t (List.mem_of_getElem? ht)).ne

theorem sound_submitAsync (hs : Sound c h s) (hid : s.nextJobId + 1 < 2 ^ 64)
    (text : List UInt8) :
    Sound c (h ++ [a]) (submitAsync c s text) ∧
      (submitAsync c s text).nextJobId ≤ s.nextJobId + 1 := by
  have hsame : Sound c (h ++ [a]) s :=
    hs.congr rfl rfl (le_refl _) (fun m hm => .inl hm) rfl fun w hw => hs.workerOk hw
  rw [submitAsync]
  by_cases huse : shouldUseThreadPool c s text.length = true
  · rw [if_pos huse]
    cases hw : s.worker with
    | none => exact ⟨hsame, Nat.le_succ _⟩
    | some w =>
      have hrunning : w.running = true := by
        rw [shouldUseThreadPool, hw] at huse
        simp only [Option.any_some, Bool.and_eq_true] at huse
        exact huse.1.2
      simp only [Nat.mod_eq_of_lt hid]
      by_cases hroom : w.jobQueue.length < c.maxQueueSize
      · rw [if_pos hroom]
        refine ⟨hs.queued hw hrunning hroom text rfl (fun j => ?_) rfl rfl rfl rfl, le_refl _⟩
        simp only [hs.next_not_pending, Option.isSome_none, Bool.false_eq_true, if_false,
          KeyedMap.find_set]
      · rw [if_neg hroom]
        refine ⟨hs.congr rfl rfl (Nat.le_succ _) (fun m hm => .inl hm) rfl fun w' hw' => ?_,
          le_refl _⟩
        obtain rfl := Option.some.inj hw'
        exact (hs.workerOk hw).congr rfl rfl rfl rfl
  · rw [if_neg huse]
    exact ⟨hsame, Nat.le_succ _⟩

/-- A message of the pool's own fulfils the promise of its job, if it is still kept. -/
theorem sound_completeJob (hs : Sound c h s) {m : Message} (hm : ∃ t ∈ s.tickets, m.IsOf t)
    {inbox : List Message} (hinbox : ∀ m ∈ inbox, m ∈ s.inbox) :
    Sound c (h ++ [a]) (completeJob c { s with inbox := inbox } m) := by
  rw [completeJob]
  cases hfind : s.pendingJobs.find m.jobId with
  | none =>
    dsimp only
    exact hs.congr rfl rfl (le_refl _) (fun m hm => .inl (hinbox m hm)) rfl
      fun w hw => hs.workerOk hw
  | some i =>
    dsimp only
    obtain ⟨t, ht, hid, hnone⟩ := (hs.pendingIff _ i).mp hfind
    obtain ⟨u, hu, huid, htokens⟩ := hm
    obtain ⟨k, hk⟩ := List.mem_iff_getElem?.mp hu
    -- the message is for this future: a job belongs to one
    obtain rfl : i = k := hs.idsDistinct i k t u ht hk (hid.trans huid.symm)
    obtain rfl : t = u := Option.some.inj (ht.symm.trans hk)
    refine @Sound.resolved c h s _ hs [i] (List.nodup_singleton i) _ _
      (fun a ha => List.mem_append_left _ ha) ?_ rfl ?_ rfl hinbox rfl rfl
    · intro k hk t' ht'
      obtain rfl := List.mem_singleton.mp hk
      obtain rfl : t = t' := Option.some.inj (ht.symm.trans ht')
      exact ⟨hnone, .inl (by rw [answer, htokens])⟩
    · intro j i'
      simp only [KeyedMap.find_erase, List.mem_singleton]
      by_cases hj : j = m.jobId
      · rw [if_pos hj, hj, hfind]
        constructor
        · intro hnone
          cases hnone
        · rintro ⟨hi, hne⟩
          exact absurd (Option.some.inj hi).symm hne
      · rw [if_neg hj]
        refine ⟨fun hi => ⟨hi, ?_⟩, And.left⟩
        rintro rfl
        obtain ⟨t', ht', hid', -⟩ := (hs.pendingIff j i').mp hi
        obtain rfl : t = t' := Option.some.inj (ht.symm.trans ht')
        exact hj (hid'.symm.trans hid)

/-- The promises that are kept are of different futures. -/
theorem Sound.pending_nodup (hs : Sound c h s) :
    (s.pendingJobs.entries.map Prod.snd).Nodup := by
  refine List.Nodup.map_on ?_ (List.Nodup.of_map _ s.pendingJobs.nodup)
  rintro ⟨j, i⟩ hi ⟨j', i'⟩ hi' heq
  obtain rfl : i = i' := heq
  obtain ⟨t, ht, rfl, -⟩ := (hs.pendingIff j i).mp (KeyedMap.find_of_mem hi)
  obtain ⟨t', ht', rfl, -⟩ := (hs.pendingIff j' i).mp (KeyedMap.find_of_mem hi')
  rw [ht] at ht'
  rw [Option.some.inj ht']

theorem mem_pending {m : KeyedMap ℕ ℕ} {i : ℕ} :
    i ∈ m.entries.map Prod.snd ↔ ∃ j, m.find j = some i := by
  constructor
  · intro hi
    obtain ⟨⟨j, i'⟩, hmem, rfl⟩ := List.mem_map.mp hi
    exact ⟨j, KeyedMap.find_of_mem hmem⟩
  · rintro ⟨j, hj⟩
    exact List.mem_map.mpr ⟨(j, i), KeyedMap.mem_of_find hj, rfl⟩

theorem sound_stop (hs : Sound c h s) : Sound c (h ++ [.stop]) (stop s) := by
  refine hs.resolved hs.pending_nodup (fun a ha => List.mem_append_left _ ha) ?_ rfl ?_ rfl
    (fun m hm => hm) rfl rfl
  · intro i hi t ht
    obtain ⟨j, hj⟩ := mem_pending.mp hi
    obtain ⟨t', ht', -, hnone⟩ := (hs.pendingIff j i).mp hj
    obtain rfl : t = t' := Option.some.inj (ht.symm.trans ht')
    exact ⟨hnone, .inr ⟨rfl, List.mem_append_right _ (List.mem_singleton_self _)⟩⟩
  · intro j i
    constructor
    · intro hfind
      cases hfind
    · rintro ⟨hfind, hi⟩
      exact absurd (mem_pending.mpr ⟨j, hfind⟩) hi

theorem sound_startWorker (hs : Sound c h s) (hstart : startWorker fromBlobJSON c s = some s') :
    Sound c (h ++ [a]) s' ∧ s'.nextJobId = s.nextJobId := by
  rw [startWorker] at hstart
  split_ifs at hstart with hrunning hoff
  · obtain rfl := Option.some.inj hstart
    exact ⟨hs.congr rfl rfl (le_refl _) (fun m hm => .inl hm) rfl fun w hw => hs.workerOk hw, rfl⟩
  · obtain rfl := Option.some.inj hstart
    refine ⟨hs.congr rfl rfl (le_refl _) (fun m hm => .inl hm) rfl fun w hw => ?_, rfl⟩
    obtain rfl := Option.some.inj hw
    cases fromBlobJSON s.tokenizerJson with
    | none => exact ⟨fun job hjob => absurd hjob List.not_mem_nil, Nat.zero_le _, fun _ => rfl⟩
    | some tokenizer =>
      exact ⟨fun job hjob => absurd hjob List.not_mem_nil, Nat.zero_le _, fun _ => rfl⟩

theorem sound_stopWorker (hs : Sound c h s) :
    Sound c (h ++ [a]) (stopWorker s) ∧ (stopWorker s).nextJobId = s.nextJobId := by
  rw [stopWorker]
  cases hw : s.worker with
  | none =>
    refine ⟨hs.congr rfl rfl (le_refl _) (fun m hm => .inl hm) rfl fun w hw' => ?_, rfl⟩
    cases hw'
  | some w =>
    by_cases hrunning : w.running = true
    · dsimp only
      rw [if_pos hrunning]
      refine ⟨hs.congr rfl rfl (le_refl _) (fun m hm => .inl hm) rfl fun w' hw' => ?_, rfl⟩
      obtain rfl := Option.some.inj hw'
      exact (hs.workerOk hw).congr rfl rfl rfl rfl
    · dsimp only
      rw [if_neg hrunning]
      refine ⟨hs.congr rfl rfl (le_refl _) (fun m hm => .inl hm) rfl fun w' hw' => ?_, rfl⟩
      cases hw'

theorem sound_workerStep (hs : Sound c h s) (hw : s.worker = some w) (hrunning : w.running = true)
    (hstep : workerStep s w a = some s') :
    Sound c (h ++ [a]) s' ∧ s'.nextJobId = s.nextJobId := by
  obtain ⟨hof, hbound, -⟩ := hs.workerOk hw
  have hrest : ∀ {w' : Worker}, w'.running = true → w'.running = false → w'.jobs = [] :=
    fun htrue hfalse => absurd (htrue.symm.trans hfalse) (by decide)
  cases a with
  | readShutdown =>
    rw [workerStep] at hstep
    cases hphase : w.phase with
    | idle =>
      simp only [hphase] at hstep
      obtain rfl := Option.some.inj hstep
      refine ⟨hs.congr rfl rfl (le_refl _) (fun m hm => .inl hm) rfl fun w' hw' => ?_, rfl⟩
      obtain rfl := Option.some.inj hw'
      refine (hs.workerOk hw).congr ?_ rfl rfl rfl
      simp only [Worker.jobs, hphase]
      cases w.shutdown <;> rfl
    | ready => simp only [hphase, reduceCtorEq] at hstep
    | holding job => simp only [hphase, reduceCtorEq] at hstep
    | exited => simp only [hphase, reduceCtorEq] at hstep
  | pop =>
    rw [workerStep] at hstep
    cases hphase : w.phase with
    | ready =>
      simp only [hphase] at hstep
      have hjobs : w.jobs = w.jobQueue := by simp only [Worker.jobs, hphase]
      cases hqueue : w.jobQueue with
      | nil =>
        simp only [hqueue] at hstep
        obtain rfl := Option.some.inj hstep
        refine ⟨hs.congr rfl rfl (le_refl _) (fun m hm => .inl hm) rfl fun w' hw' => ?_, rfl⟩
        obtain rfl := Option.some.inj hw'
        exact (hs.workerOk hw).congr (by simp only [Worker.jobs, hphase, hqueue]) hqueue.symm rfl
          rfl
      | cons job rest =>
        simp only [hqueue] at hstep
        obtain rfl := Option.some.inj hstep
        refine ⟨hs.congr rfl rfl (le_refl _) (fun m hm => .inl hm) rfl fun w' hw' => ?_, rfl⟩
        obtain rfl := Option.some.inj hw'
        rw [hjobs, hqueue] at hof
        rw [hqueue, List.length_cons] at hbound
        exact ⟨hof, (Nat.le_succ _).trans hbound, hrest hrunning⟩
    | idle => simp only [hphase, reduceCtorEq] at hstep
    | holding job => simp only [hphase, reduceCtorEq] at hstep
    | exited => simp only [hphase, reduceCtorEq] at hstep
  | processJob posted =>
    rw [workerStep] at hstep
    cases hphase : w.phase with
    | holding job =>
      simp only [hphase] at hstep
      obtain rfl := Option.some.inj hstep
      have hjobs : w.jobs = job :: w.jobQueue := by simp only [Worker.jobs, hphase]
      rw [hjobs] at hof
      obtain ⟨t, ht, hid, htext, htokenizer⟩ := hof job List.mem_cons_self
      rw [processJob]
      cases posted with
      | true =>
        refine ⟨hs.congr rfl rfl (le_refl _) (fun m hm => ?_) rfl fun w' hw' => ?_, rfl⟩
        · rcases List.mem_append.mp hm with hm | hm
          · exact .inl hm
          · obtain rfl := List.mem_singleton.mp hm
            refine .inr ⟨t, ht, hid, ?_⟩
            rw [htokenizer, htext]
        · obtain rfl := Option.some.inj hw'
          exact ⟨fun job' hjob => hof job' (List.mem_cons_of_mem _ hjob), hbound, hrest hrunning⟩
      | false =>
        refine ⟨hs.congr rfl rfl (le_refl _) (fun m hm => .inl hm) rfl fun w' hw' => ?_, rfl⟩
        obtain rfl := Option.some.inj hw'
        exact ⟨fun job' hjob => hof job' (List.mem_cons_of_mem _ hjob), hbound, hrest hrunning⟩
    | idle => simp only [hphase, reduceCtorEq] at hstep
    | ready => simp only [hphase, reduceCtorEq] at hstep
    | exited => simp only [hphase, reduceCtorEq] at hstep
  | _ => cases hstep

/-- A step of the worker thread. -/
theorem step_worker (ha : a = .readShutdown ∨ a = .pop ∨ ∃ posted, a = .processJob posted)
    (hstep : step fromBlobJSON c s a = some s') :
    ∃ w, s.worker = some w ∧ w.running = true ∧ workerStep s w a = some s' := by
  cases hw : s.worker with
  | none => rcases ha with rfl | rfl | ⟨posted, rfl⟩ <;> simp [step, hw] at hstep
  | some w =>
    refine ⟨w, rfl, ?_⟩
    rcases ha with rfl | rfl | ⟨posted, rfl⟩ <;> simpa [step, hw] using hstep

/-- **One step of either thread.** -/
theorem sound_step (hs : Sound c h s)
    (hid : ∀ text, a = .submitAsync text → s.nextJobId + 1 < 2 ^ 64)
    (hstep : step fromBlobJSON c s a = some s') :
    Sound c (h ++ [a]) s' ∧ s'.nextJobId ≤ s.nextJobId + 1 := by
  have hworker : (a = .readShutdown ∨ a = .pop ∨ ∃ posted, a = .processJob posted) →
      Sound c (h ++ [a]) s' ∧ s'.nextJobId ≤ s.nextJobId + 1 := by
    intro ha
    obtain ⟨w, hw, hrunning, hstep⟩ := step_worker ha hstep
    obtain ⟨hsound, hnext⟩ := sound_workerStep hs hw hrunning hstep
    exact ⟨hsound, hnext.trans_le (Nat.le_succ _)⟩
  cases a with
  | readShutdown => exact hworker (.inl rfl)
  | pop => exact hworker (.inr (.inl rfl))
  | processJob posted => exact hworker (.inr (.inr ⟨posted, rfl⟩))
  | joined =>
    rw [step] at hstep
    split at hstep
    · split_ifs at hstep
      obtain rfl := Option.some.inj hstep
      refine ⟨hs.congr rfl rfl (le_refl _) (fun m hm => .inl hm) rfl fun w hw => ?_, Nat.le_succ _⟩
      cases hw
    · cases hstep
  | loadTokenizer json =>
    rw [step] at hstep
    split_ifs at hstep
    obtain rfl := Option.some.inj hstep
    exact ⟨hs.congr rfl rfl (le_refl _) (fun m hm => .inl hm) rfl fun w hw => hs.workerOk hw,
      Nat.le_succ _⟩
  | startWorker =>
    rw [step] at hstep
    split_ifs at hstep
    obtain ⟨hsound, hnext⟩ := sound_startWorker hs hstep
    exact ⟨hsound, hnext.trans_le (Nat.le_succ _)⟩
  | submitAsync text =>
    rw [step] at hstep
    split_ifs at hstep
    obtain rfl := Option.some.inj hstep
    exact sound_submitAsync hs (hid text rfl) text
  | runMessage i =>
    rw [step] at hstep
    split_ifs at hstep
    rw [runMessage] at hstep
    cases hm : s.inbox[i]? with
    | none =>
      rw [hm] at hstep
      cases hstep
    | some m =>
      simp only [hm] at hstep
      obtain rfl := Option.some.inj hstep
      have hinbox : ∀ m ∈ s.inbox.eraseIdx i, m ∈ s.inbox := fun m hm => List.mem_of_mem_eraseIdx hm
      by_cases hcallback : s.callback = true
      · rw [if_pos hcallback]
        refine ⟨sound_completeJob hs (hs.messages m (List.mem_of_getElem? hm)) hinbox, ?_⟩
        rw [completeJob]
        split <;> exact Nat.le_succ _
      · rw [if_neg hcallback]
        exact ⟨hs.congr rfl rfl (le_refl _) (fun m hm => .inl (hinbox m hm)) rfl
          fun w hw => hs.workerOk hw, Nat.le_succ _⟩
  | stopWorker =>
    rw [step] at hstep
    split_ifs at hstep
    obtain rfl := Option.some.inj hstep
    obtain ⟨hsound, hnext⟩ := @sound_stopWorker c h s .stopWorker hs
    exact ⟨hsound, hnext.trans_le (Nat.le_succ _)⟩
  | stop =>
    rw [step] at hstep
    split_ifs at hstep
    obtain rfl := Option.some.inj hstep
    exact ⟨sound_stop hs, Nat.le_succ _⟩

/-- The invariant over a run with fewer jobs than there are identities. -/
theorem sound_run {acts : List Action} (hacts : acts.length < 2 ^ 64)
    (hrun : exec (step fromBlobJSON c) {} acts = some s) : Sound c acts s := by
  have hinv := @exec_induction _ _ (step fromBlobJSON c)
    (fun h s => h.length < 2 ^ 64 → Sound c h s ∧ s.nextJobId ≤ h.length)
    (fun {h m a m'} hstep hinv hlength => ?_) [] acts {} s hrun fun _ => ⟨Sound.nil, le_refl _⟩
  · exact (hinv hacts).1
  · rw [List.length_append, List.length_singleton] at hlength
    obtain ⟨hsound, hnext⟩ := hinv (by omega)
    obtain ⟨hsound', hnext'⟩ := sound_step hsound (fun _ _ => by omega) hstep
    refine ⟨hsound', ?_⟩
    rw [List.length_append, List.length_singleton]
    omega

/-- What the callers of `submit_async` can rely on. -/
structure Contract (c : Config) (acts : List Action) (s : Pool) : Prop where
  /-- a future gets at most one value, and it is the encoding of its own text by the tokenizer
  it was submitted to, or the empty result once `stop` ran -/
  outcomes : ∀ t ∈ s.tickets, t.outcomes = [] ∨ t.outcomes = [answer c t] ∨
    t.outcomes = [{}] ∧ Action.stop ∈ acts
  /-- the pool keeps a promise exactly for each future that has no value yet -/
  kept : ∀ (i : ℕ) (t : Ticket), s.tickets[i]? = some t →
    (s.pendingJobs.find t.jobId = some i ↔ t.outcomes = [])
  /-- every promise kept is one of these -/
  noOther : s.pendingJobs.size ≤ s.tickets.length
  /-- right after `stop`, no future is left waiting -/
  stopped : ∀ front, acts = front ++ [.stop] → ∀ t ∈ s.tickets, t.outcomes ≠ []
  /-- the queue stays within its bound -/
  bounded : ∀ w, s.worker = some w → w.jobQueue.length ≤ c.maxQueueSize

theorem Sound.contract {acts : List Action} (hs : Sound c acts s)
    (hrun : exec (step fromBlobJSON c) {} acts = some s) : Contract c acts s := by
  have hkept : ∀ (i : ℕ) (t : Ticket), s.tickets[i]? = some t →
      (s.pendingJobs.find t.jobId = some i ↔ t.outcomes = []) := by
    intro i t ht
    rw [hs.pendingIff]
    constructor
    · rintro ⟨t', ht', -, hnone⟩
      rw [ht] at ht'
      rw [Option.some.inj ht']
      exact hnone
    · exact fun hnone => ⟨t, ht, rfl, hnone⟩
  refine ⟨hs.outcomes, hkept, ?_, ?_, hs.bounded⟩
  · have hsub : s.pendingJobs.entries.map Prod.snd ⊆ List.range s.tickets.length := by
      intro i hi
      obtain ⟨j, hj⟩ := mem_pending.mp hi
      obtain ⟨t, ht, -⟩ := (hs.pendingIff j i).mp hj
      exact List.mem_range.mpr (List.getElem?_eq_some_iff.mp ht).1
    have hle := (hs.pending_nodup.subperm hsub).length_le
    rwa [List.length_map, List.length_range] at hle
  · rintro front rfl t ht hnone
    obtain ⟨m, -, hlast⟩ := exec_split hrun
    obtain ⟨m', hstop, hend⟩ := exec_cons hlast
    obtain rfl : m' = s := Option.some.inj hend
    rw [step] at hstop
    split_ifs at hstop
    obtain rfl := Option.some.inj hstop
    obtain ⟨i, hi⟩ := List.mem_iff_getElem?.mp ht
    have hfind := (hkept i t hi).mpr hnone
    cases hfind

/-- **The pool over every interleaving** of the reactor and the worker thread, with fewer
calls than there are job identities: no future is answered twice or with another text's
tokens, and none is forgotten by `stop`. -/
theorem tokenizer_pool_contract {acts : List Action} (hacts : acts.length < 2 ^ 64)
    (hrun : exec (step fromBlobJSON c) {} acts = some s) : Contract c acts s :=
  (sound_run hacts hrun).contract hrun

/-- A library whose tokens are the bytes of the text. -/
def byteTokens : List UInt8 → Option Encode :=
  fun _ => some fun text => some (text.map fun b => (b.toNat : ℤ))

/-- A pool that takes texts of one byte and more. -/
def smallTexts : Config := { enabled := true, minTextLength := 1 }

/-- A worker is started and a text submitted. -/
def submitted : List Action := [.loadTokenizer [123], .startWorker, .submitAsync [104, 105]]

/-- The worker takes the job and its result comes back. -/
def answered : List Action := [.readShutdown, .pop, .processJob true, .runMessage 0]

theorem tokenizer_pool_contract_answered :
    ∃ s, exec (step byteTokens smallTexts) {} (submitted ++ answered) = some s ∧
      Contract smallTexts (submitted ++ answered) s := by
  have hrun := @exec_eq_some_getD _ _ (step byteTokens smallTexts) {} (submitted ++ answered)
    (by decide)
  exact ⟨_, hrun, tokenizer_pool_contract (by decide) hrun⟩

end Steps

end TokenizerPool

end Ranvier
