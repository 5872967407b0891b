import TCPClientServer.Calculator.Interleaving
import TCPClientServer.System.Agreement

/-!
# From the text to the answers

A client that has returned, after stops that were settled ones, has had every datum of its input answered,
whatever the threads, the network and the server did in between.

* `State.Settled` : a stop of the client is a settled one; `settled_of_steps`;
* `drained_run`, `scraping_run` : the threads in a run of the whole; `answered_of_invariant`;
* `every_datum_answered`.
-/

namespace TCPClientServer.System
open TCPClientServer.Basis TCPClientServer.Io TCPClientServer.Server TCPClientServer.Client TCPClientServer.Calculator

section Threads
variable {f : Filter} {cd : Codec ClientData} {cr : Codec (Response ServerData)} {clientId : Bytes}
  {keepAlive secured : Bool} {s s' : State} {l : Label} {ls : List Label}

variable (clientId) in
/-- If the client stops in this step, the queue is empty and the scraper holds no datum. -/
def State.Settled (s : State) : Label → Prop
  | .thread a => s.threads.Settled clientId a
  | _ => True

instance (s : State) (l : Label) : Decidable (s.Settled clientId l) := by
  unfold State.Settled
  split <;> infer_instance

theorem settled_of_outside (threads : Threads) {m : Move ServerData} (hm : m ≠ .internal) :
    threads.Settled clientId (.client m) := by
  unfold Threads.Settled
  split
  · rename_i h
    exact absurd (Action.client.inj h) hm
  · trivial

theorem settled_of_steps (hsettled : s.Settled clientId l)
    (h : State.Steps f cd cr clientId keepAlive secured s l s') :
    s'.threads = s.threads ∨
      ∃ a, s.threads.Settled clientId a ∧ s.threads.step clientId keepAlive a = some s'.threads := by
  cases h with
  | thread a hlocal threads hthreads => exact .inr ⟨a, hsettled, hthreads⟩
  | opened threads hthreads =>
    exact .inr ⟨.client (.opened (.ok ())), settled_of_outside _ (by simp), hthreads⟩
  | notWritten k fresh d hpc hawaiting j ch hnewest e hec threads hthreads =>
    exact .inr ⟨.client (.sent _), settled_of_outside _ (by simp), hthreads⟩
  | read fault fresh hawaiting j ch hnewest r hread threads hthreads =>
    exact .inr ⟨.client (.sent _), settled_of_outside _ (by simp), hthreads⟩
  | readThrows fault fresh hawaiting j ch hnewest e hread threads hthreads =>
    exact .inr ⟨.client (.sent _), settled_of_outside _ (by simp), hthreads⟩
  | _ => exact .inl rfl

theorem drained_run {is : IStream} {padding : Padding} {connection : Connection} {cdata : ClientData}
    {response : Response ServerData}
    (hrun : Runs (StepOf (State.step f cd cr clientId false secured)) (.init is padding connection cdata response) ls s)
    (hsettled : Always (StepOf (State.step f cd cr clientId false secured)) (State.Settled clientId)
      (.init is padding connection cdata response) ls) :
    s.threads.client.pc = .returned → s.threads.Drained clientId := by
  refine hrun.invariant_of_always
    (I := fun _ t => t.threads.client.pc = .returned → t.threads.Drained clientId) hsettled nofun ?_
  intro _ t l u hdrained hl hstep
  rcases settled_of_steps hl (State.steps_of_step hstep) with hsame | ⟨a, ha, hthreads⟩
  · rwa [hsame]
  · exact Threads.drained_step hdrained ha hthreads

theorem scraping_run {t : Bytes} {padding : Padding} {connection : Connection} {cdata : ClientData}
    {response : Response ServerData}
    (hrun : Runs (StepOf (State.step f cd cr clientId keepAlive secured))
      (.init (.ofText t) padding connection cdata response) ls s) : Threads.Scraping clientId t s.threads := by
  obtain ⟨as, hthreads⟩ := (State.parts_of_runs hrun).1
  exact Threads.scraping_run hthreads

/-- What has been answered are the first data of the text, and all of them when nothing has been left behind. -/
theorem answered_of_invariant {t : Bytes} (hinv : Invariant f cd cr s) (hscraping : Threads.Scraping clientId t s.threads) :
    ∃ us, s.threads.client.answered.map Prod.fst <+: dataIn clientId us (readable t) ∧
      (s.threads.client.pc = .returned → s.threads.Drained clientId →
        s.threads.client.answered.map Prod.fst = dataIn clientId us (readable t)) := by
  obtain ⟨us, hprefix, hall⟩ := hscraping.pushed
  have hanswered : s.threads.client.answered.map Prod.fst <+: s.threads.client.pushed :=
    ⟨_, hinv.disciplined.pushed.symm⟩
  refine ⟨us, hanswered.trans hprefix, fun hpc hdrained => ?_⟩
  have hpushed := hinv.disciplined.pushed_queue (by simp [hpc])
  rw [hdrained.queue, List.append_nil] at hpushed
  exact hpushed.symm.trans (hall hdrained.good hdrained.quiet)

end Threads

section Calculator
variable {z : Zlib} {compressed : Bool} {ar : TextArchive}

/-- **Every datum of the input is answered**, once, in order and correctly: in every run of the threads, the server
and the network in which each stop of the client is a settled one, a client that has returned has been given a
response to each datum that the readable lines of its input hold, and to nothing else. -/
theorem every_datum_answered (hz : compressed = true → z.Lawful) (har : ar.Lawful) {clientId t : Bytes}
    {secured : Bool} {padding : Padding} {connection : Connection} {cdata : ClientData}
    {response : Response ServerData} {ls : List Label} {s : State}
    (hrun : Runs (StepOf (State.step (createFilter z compressed) (requestCodec ar) (responseCodec ar) clientId false
      secured)) (.init (.ofText t) padding connection cdata response) ls s)
    (hsettled : Always (StepOf (State.step (createFilter z compressed) (requestCodec ar) (responseCodec ar) clientId
      false secured)) (State.Settled clientId) (.init (.ofText t) padding connection cdata response) ls)
    (hpc : s.threads.client.pc = .returned) :
    ∃ us, s.threads.client.answered.map Prod.fst = dataIn clientId us (readable t) ∧
      ∀ p ∈ s.threads.client.answered, Answers p.1 p.2 := by
  have hinv := invariant_run (fun d hd => request_sound hz har hd.1 hd.2)
    (fun d r hr => sound_of_replied hz har hr) hrun
  obtain ⟨us, -, hall⟩ := answered_of_invariant hinv (scraping_run hrun)
  exact ⟨us, hall hpc (drained_run hrun hsettled hpc), hinv.agreed.answers⟩

/-- The sum is sent twice over two connections and answered, the scraper meets the end of the text, and the client
returns. -/
def completedSum : List Label :=
  resentSum ++ List.replicate 5 (Label.thread (.scrape .zero)) ++ List.replicate 3 (Label.thread (.client .internal))

theorem every_datum_answered_resent :
    ∃ s us, Runs (StepOf (State.step (createFilter ⟨id, .ok⟩ false) (requestCodec plainArchive)
        (responseCodec plainArchive) [ch 'a'] false false))
          (.init (.ofText (sumLine ++ [newline])) (.replicate 0) .fresh blankRequest blankResponse) completedSum s ∧
      s.threads.client.answered.length = 1 ∧
      s.threads.client.answered.map Prod.fst = dataIn [ch 'a'] us (readable (sumLine ++ [newline])) ∧
      ∀ p ∈ s.threads.client.answered, Answers p.1 p.2 := by
  have hplay : (play (guarded (State.step (createFilter ⟨id, .ok⟩ false) (requestCodec plainArchive)
      (responseCodec plainArchive) [ch 'a'] false false) (State.Settled [ch 'a']))
        (.init (.ofText (sumLine ++ [newline])) (.replicate 0) .fresh blankRequest blankResponse) completedSum).any
          (fun s => decide (s.threads.client.answered.length = 1 ∧ s.threads.client.pc = .returned)) = true := by
    decide +kernel
  obtain ⟨s, hs, hlast⟩ := (Option.any_eq_true _ _).mp hplay
  obtain ⟨hone, hpc⟩ := of_decide_eq_true hlast
  obtain ⟨hrun, hsettled⟩ := runs_of_play_guarded hs
  obtain ⟨us, hus, hanswers⟩ := every_datum_answered (by simp) plainArchive_lawful hrun hsettled hpc
  exact ⟨s, us, hrun, hone, hus, hanswers⟩

end Calculator

end TCPClientServer.System
