import TCPClientServer.System.Lockstep

/-!
# Requests and responses agree

Whatever is sent again, left over on an old connection or cut short, the responses that the strategy is given are
those to the data pushed, one after another.

* `Agreed` : the exchanges so far are answered, and the connection in use is in step; `agreed_steps`;
* `Invariant` : all that every step keeps, `invariant_run`;
* `sound_of_replied` : a text archive reads back every reply;
* `request_response_agreement` : what holds in every run.
-/

namespace TCPClientServer.System
open TCPClientServer.Basis TCPClientServer.Io TCPClientServer.Server TCPClientServer.Client TCPClientServer.Calculator

def ProperRequest (d : ClientData) : Prop := d.operand1.Proper ∧ d.operand2.Proper

def State.awaited (s : State) : Option ClientData :=
  match s.threads.client.pc, s.awaiting with
  | .sending d, some _ => some d
  | _, _ => none

section Agreement
variable (f : Filter) (cd : Codec ClientData) (cr : Codec (Response ServerData)) (clientId : Bytes)
  (keepAlive secured : Bool)

/-- What has been given to the strategy answers its request, the strategy has the padding of the request in
hand, and a connection that has not been given up is in step. -/
structure Agreed (s : State) : Prop where
  answers : ∀ p ∈ s.threads.client.answered, Answers p.1 p.2
  assertion : ∀ r, s.threads.client.pc ≠ .halted (.assertion r)
  request : ∀ d, s.threads.client.pc = .sending d → s.threads.client.strategy = d.padding
  awaiting : s.awaiting ≠ none → ∃ d, s.threads.client.pc = .sending d
  linked : s.threads.client.pc.Connected → Linked f cd cr s.server s.channels s.awaited

structure Invariant (s : State) : Prop where
  disciplined : s.threads.client.Disciplined
  scraped : s.threads.Scraped
  owned : Owned s.server s.channels
  agreed : Agreed f cd cr s

variable {f cd cr clientId keepAlive secured} {s s' : State} {l : Label}

/-! ## The steps of the threads -/

theorem awaited_of_none (h : s.awaiting = none) : s.awaited = none := by
  rw [State.awaited, h]
  split <;> simp_all

theorem awaited_of_some {d : ClientData} {fresh : Response ServerData} (hpc : s.threads.client.pc = .sending d)
    (h : s.awaiting = some fresh) : s.awaited = some d := by
  rw [State.awaited, hpc, h]

theorem Agreed.awaiting_eq_none (h : Agreed f cd cr s) (hpc : ∀ d, s.threads.client.pc ≠ .sending d) :
    s.awaiting = none := by
  by_contra hsome
  obtain ⟨d, hd⟩ := h.awaiting hsome
  exact hpc d hd

theorem pc_of_scrapes {u : Locals} {threads : Threads} (h : Threads.Scrapes clientId s.threads u threads) :
    threads.client.pc = s.threads.client.pc ∧ threads.client.strategy = s.threads.client.strategy ∧
      threads.client.answered = s.threads.client.answered := by
  rcases Threads.client_of_scrapes h with hclient | ⟨d, hclient⟩
  · rw [hclient]
    exact ⟨rfl, rfl, rfl⟩
  · rw [hclient]
    exact ⟨rfl, rfl, rfl⟩

theorem agreed_scrapes {u : Locals} {threads : Threads} (h : Agreed f cd cr s)
    (hscrapes : Threads.Scrapes clientId s.threads u threads) : Agreed f cd cr { s with threads } := by
  obtain ⟨hpc, hstrategy, hanswered⟩ := pc_of_scrapes hscrapes
  have hawaited : State.awaited { s with threads } = s.awaited := by rw [State.awaited, State.awaited, hpc]
  constructor
  · rw [hanswered]
    exact h.answers
  · rw [hpc]
    exact h.assertion
  · rw [hpc, hstrategy]
    exact h.request
  · rw [hpc]
    exact h.awaiting
  · rw [hpc, hawaited]
    exact h.linked

theorem agreed_local {client : Client.Thread Padding ClientData ServerData} (h : Agreed f cd cr s)
    (hmoves : Thread.Moves ClientActions keepAlive s.threads.stream.good s.threads.client .internal client) :
    Agreed f cd cr { s with threads := { s.threads with client } } := by
  obtain ⟨hanswered, hhalted, hrequest⟩ := Thread.local_of_moves hmoves
  have hnone := h.awaiting_eq_none (Thread.not_sending_of_moves hmoves)
  constructor
  · rw [hanswered]
    exact h.answers
  · exact fun r => hhalted _
  · exact hrequest
  · exact fun hsome => absurd hnone hsome
  · intro hpc
    have hlinked := h.linked (Thread.connected_of_moves hmoves hpc)
    rw [awaited_of_none hnone] at hlinked
    rw [awaited_of_none (s := { s with threads := { s.threads with client } }) hnone]
    exact hlinked

/-- A thread that has given its connection up has nothing to be in step with. -/
theorem agreed_given_up (h : Agreed f cd cr s) (hawaiting : s'.awaiting = none)
    (hanswered : s'.threads.client.answered = s.threads.client.answered) (hpc : ¬ s'.threads.client.pc.Connected)
    (hassertion : ∀ r, s'.threads.client.pc ≠ .halted (.assertion r)) : Agreed f cd cr s' where
  answers := by
    rw [hanswered]
    exact h.answers
  assertion := hassertion
  request d hd := absurd (by rw [hd]; trivial) hpc
  awaiting hsome := absurd hawaiting hsome
  linked hconnected := absurd hconnected hpc

theorem agreed_beside (h : Agreed f cd cr s) (hthreads : s'.threads = s.threads) (hawaiting : s'.awaiting = s.awaiting)
    (hlinked : ∀ awaited, Linked f cd cr s.server s.channels awaited → Linked f cd cr s'.server s'.channels awaited) :
    Agreed f cd cr s' where
  answers := by
    rw [hthreads]
    exact h.answers
  assertion := by
    rw [hthreads]
    exact h.assertion
  request := by
    rw [hthreads]
    exact h.request
  awaiting := by
    rw [hthreads, hawaiting]
    exact h.awaiting
  linked hpc := by
    rw [hthreads] at hpc
    rw [State.awaited, hthreads, hawaiting]
    exact hlinked _ (h.linked hpc)

/-! ## The exchange -/

theorem mem_pushed_of_sending {c : Client.Thread Padding ClientData ServerData} {d : ClientData} (h : c.Disciplined)
    (hpc : c.pc = .sending d) : d ∈ c.pushed := by
  rw [h.pushed_queue (by simp [hpc])]
  exact List.mem_append_right _ (List.mem_of_head? (h.sending d hpc))

/-- The request is written. -/
theorem agreed_written {k : Sink} {fresh : Response ServerData} {d : ClientData} {j : Nat} {ch : Channel}
    (h : Agreed f cd cr s) (hsound : Sound f cd d) (hpc : s.threads.client.pc = .sending d)
    (hawaiting : s.awaiting = none) (hnewest : newest s.channels = some (j, ch))
    (hec : (s.connection.write f cd d k).ec = none) :
    Agreed f cd cr (State.setChannel { s with
      connection := (s.connection.write f cd d k).connection, awaiting := some fresh } j
        (ch.put (s.connection.write f cd d k).put)) := by
  have hwritten : Written f cd d k := by
    by_contra hnot
    obtain ⟨e, he⟩ := write_not_written s.connection hnot
    simp [hec] at he
  have hlinked := h.linked (by rw [hpc]; trivial)
  rw [awaited_of_none hawaiting] at hlinked
  refine ⟨h.answers, h.assertion, h.request, fun _ => ⟨d, hpc⟩, fun _ => ?_⟩
  have hput := linked_put hlinked hnewest hwritten.1 hsound
  rw [write_written hwritten]
  simpa only [State.awaited, State.setChannel, hpc] using hput

theorem onSent_of_replied {d : ClientData} {r : Response ServerData} (h : Agreed f cd cr s)
    (hpc : s.threads.client.pc = .sending d) (hreplied : Replied f cr serverAction d r) :
    Answers d r ∧ s.threads.client.onSent ClientActions d (.ok (none, r)) = { s.threads.client with
      pc := .popping, strategy := d.padding, answered := s.threads.client.answered ++ [(d, r)] } := by
  obtain ⟨now, hnow⟩ := hreplied.data
  have hanswers : Answers d r := serverAction_answers hnow r.transmissionStatus
  have hresponse : ClientActions.response s.threads.client.strategy r = some d.padding := by
    rw [h.request d hpc]
    exact ClientActions_response_of_answers hanswers d.padding
  exact ⟨hanswers, Thread.onSent_answered hreplied.status hresponse⟩

/-- The response is read, and given to the strategy. -/
theorem agreed_read {fault : Fault} {fresh : Response ServerData} {d : ClientData} {j : Nat} {ch : Channel}
    {r : Connection.Read (Response ServerData)} (h : Agreed f cd cr s)
    (hsound : ∀ r, Replied f cr serverAction d r → Sound f cr r) (hpc : s.threads.client.pc = .sending d)
    (hawaiting : s.awaiting = some fresh) (hnewest : newest s.channels = some (j, ch))
    (hread : s.connection.read f cr fresh ⟨[ch.atClient], fault⟩ = .ok r) :
    Agreed f cd cr (State.setChannel { s with
      threads := { s.threads with client := s.threads.client.onSent ClientActions d (.ok (r.ec, r.value)) },
      awaiting := none, connection := r.connection } j (ch.leave r.source.bytes)) := by
  cases hec : r.ec with
  | some e =>
    obtain ⟨hanswered, hconnected, hassertion⟩ := Thread.onSent_failed ClientActions
      s.threads.client d (show ∀ r', Except.ok (some e, r.value) ≠ .ok (none, r') by simp)
    exact agreed_given_up h rfl hanswered hconnected hassertion
  | none =>
    have hlinked := h.linked (by rw [hpc]; trivial)
    rw [awaited_of_some hpc hawaiting] at hlinked
    obtain ⟨hreplied, hlinked⟩ := linked_read hlinked hnewest hsound hread hec
    obtain ⟨hanswers, hsent⟩ := onSent_of_replied h hpc hreplied
    rw [hsent]
    constructor
    · intro p hp
      rcases List.mem_append.mp hp with hp | hp
      · exact h.answers p hp
      · obtain rfl := List.mem_singleton.mp hp
        exact hanswers
    · intro r'
      simp [State.setChannel]
    · intro d' hd'
      simp [State.setChannel] at hd'
    · exact fun hsome => absurd rfl hsome
    · exact fun _ => hlinked

theorem client_of_sent {threads : Threads} {result : Except Exn (ErrorCode × Response ServerData)}
    (h : s.threads.step clientId keepAlive (.client (.sent result)) = some threads) :
    ∃ d, s.threads.client.pc = .sending d ∧
      threads = { s.threads with client := s.threads.client.onSent ClientActions d result } := by
  obtain ⟨client, hnext, rfl⟩ := Option.map_eq_some_iff.mp h
  cases Thread.moves_of_next hnext with
  | sent d hpc => exact ⟨d, hpc, rfl⟩

/-! ## All steps -/

/-- **Every step keeps requests and responses in agreement.** -/
theorem agreed_steps (hreq : ∀ d ∈ s.threads.client.pushed, Sound f cd d)
    (hresp : ∀ d r, Replied f cr serverAction d r → Sound f cr r) (h : Agreed f cd cr s)
    (hdisciplined : s.threads.client.Disciplined) (howned : Owned s.server s.channels)
    (hsteps : State.Steps f cd cr clientId keepAlive secured s l s') : Agreed f cd cr s' := by
  cases hsteps with
  | thread a hlocal threads hthreads =>
    cases a with
    | scrape u => exact agreed_scrapes h (Threads.scrapes_iff.mp hthreads)
    | client m =>
      obtain ⟨client, hnext, rfl⟩ := Option.map_eq_some_iff.mp hthreads
      have hmoves := Thread.moves_of_next hnext
      cases m with
      | internal => exact agreed_local h hmoves
      | sent result => cases hlocal
      | opened result =>
        cases hmoves with
        | opened hpc => cases hlocal
        | notOpened hpc e => exact agreed_given_up h (h.awaiting_eq_none (by simp [hpc])) rfl id (by simp)
  | opened threads hthreads =>
    obtain ⟨client, hnext, rfl⟩ := Option.map_eq_some_iff.mp hthreads
    cases Thread.moves_of_next hnext with
    | opened hpc =>
      have hnone := h.awaiting_eq_none (by simp [hpc])
      refine ⟨h.answers, by simp, by simp, fun hsome => absurd hnone hsome, fun _ => ?_⟩
      exact linked_opened s.server s.channels
  | written k fresh d hpc hawaiting j ch hnewest hec =>
    exact agreed_written h (hreq d (mem_pushed_of_sending hdisciplined hpc)) hpc hawaiting hnewest hec
  | notWritten k fresh d hpc hawaiting j ch hnewest e hec threads hthreads =>
    obtain ⟨d', -, rfl⟩ := client_of_sent hthreads
    obtain ⟨hanswered, hconnected, hassertion⟩ := Thread.onSent_failed ClientActions
      s.threads.client d' (show ∀ r, Except.ok (some e, fresh) ≠ .ok (none, r) by simp)
    exact agreed_given_up h hawaiting hanswered hconnected hassertion
  | read fault fresh hawaiting j ch hnewest r hread threads hthreads =>
    obtain ⟨d, hpc, rfl⟩ := client_of_sent hthreads
    exact agreed_read h (hresp d) hpc hawaiting hnewest hread
  | readThrows fault fresh hawaiting j ch hnewest e hread threads hthreads =>
    obtain ⟨d, -, rfl⟩ := client_of_sent hthreads
    obtain ⟨hanswered, hconnected, hassertion⟩ := Thread.onSent_failed ClientActions
      s.threads.client d (show ∀ r, Except.error e ≠ .ok (none, r) by simp)
    exact agreed_given_up h rfl hanswered hconnected hassertion
  | toServer k n ch hch =>
    exact agreed_beside h rfl rfl fun _ hlinked =>
      linked_deliver hlinked hch rfl fun _ _ _ hcarries => carries_deliverToServer hcarries n
  | toClient k n ch hch =>
    exact agreed_beside h rfl rfl fun _ hlinked =>
      linked_deliver hlinked hch rfl fun _ _ _ hcarries => carries_deliverToClient hcarries n
  | accepted k i cdata response ch hch hsession hacc server hserver =>
    exact agreed_beside h rfl rfl fun _ hlinked => linked_accepted hlinked howned hch hsession hacc hserver
  | completed k i c ch hch hsession hpossible harrived server hserver =>
    exact agreed_beside h rfl rfl fun _ hlinked =>
      linked_completed hlinked howned hch hsession hpossible harrived hserver
  | other e hown hpossible server hserver =>
    refine agreed_beside h rfl rfl fun _ hlinked => linked_server hlinked hserver fun j ch i c hnewest hsession heq => ?_
    subst heq
    exact hown ⟨ch, List.mem_of_getElem? (newest_eq_some_iff.mp hnewest).1, hsession⟩
  | crashed l => exact agreed_beside h rfl rfl fun _ hlinked => hlinked

theorem invariant_steps (hreq : ∀ d, ProperRequest d → Sound f cd d)
    (hresp : ∀ d r, Replied f cr serverAction d r → Sound f cr r) (h : Invariant f cd cr s)
    (hsteps : State.Steps f cd cr clientId keepAlive secured s l s') : Invariant f cd cr s' := by
  have hthreads : s'.threads.client.Disciplined ∧ s'.threads.Scraped := by
    rcases State.threads_of_steps hsteps with hsame | ⟨a, ha⟩
    · rw [hsame]
      exact ⟨h.disciplined, h.scraped⟩
    · exact ⟨Threads.disciplined_step h.disciplined ha, Threads.scraped_step h.scraped ha⟩
  exact ⟨hthreads.1, hthreads.2, owned_steps h.owned hsteps,
    agreed_steps (fun d hd => hreq d (h.scraped.pushed d hd)) hresp h.agreed h.disciplined h.owned hsteps⟩

theorem invariant_init (is : IStream) (padding : Padding) (connection : Connection) (cdata : ClientData)
    (response : Response ServerData) : Invariant f cd cr (.init is padding connection cdata response) where
  disciplined := Threads.disciplined_init is padding
  scraped := ⟨by simp [State.init, Threads.init], by simp [State.init, Threads.init]⟩
  owned := ⟨AsyncServer.wellFormed_init cdata response, by simp [State.init], by simp [State.init]⟩
  agreed := by
    refine ⟨by simp [State.init, Threads.init], by simp [State.init, Threads.init], by simp [State.init, Threads.init],
      fun hsome => absurd rfl hsome, False.elim⟩

/-- **Every run keeps everything.** -/
theorem invariant_run {is : IStream} {padding : Padding} {connection : Connection} {cdata : ClientData}
    {response : Response ServerData} {ls : List Label} (hreq : ∀ d, ProperRequest d → Sound f cd d)
    (hresp : ∀ d r, Replied f cr serverAction d r → Sound f cr r)
    (hrun : Runs (StepOf (State.step f cd cr clientId keepAlive secured))
      (.init is padding connection cdata response) ls s) : Invariant f cd cr s :=
  hrun.invariant (I := fun _ s => Invariant f cd cr s) (invariant_init is padding connection cdata response)
    fun _ _ _ _ _ ih hstep => invariant_steps hreq hresp ih (State.steps_of_step hstep)

end Agreement

/-! ## The calculator -/

section Calculator
variable {z : Zlib} {compressed : Bool} {ar : TextArchive}

theorem sound_of_replied (hz : compressed = true → z.Lawful) (har : ar.Lawful) {f : Filter}
    {cr : Codec (Response ServerData)} {d : ClientData} {r : Response ServerData}
    (h : Replied f cr serverAction d r) : Sound (createFilter z compressed) (responseCodec ar) r := by
  obtain ⟨now, hnow⟩ := h.data
  exact response_sound hz har (Operation.answer_proper (serverAction_answers hnow r.transmissionStatus).result)

/-- **Requests and responses agree**, in every run of the threads, the server and the network: the strategy has
been given responses to the first of the data pushed, in their order and one for each, and every response has
the id, the padding and the result of its request. -/
theorem request_response_agreement (hz : compressed = true → z.Lawful) (har : ar.Lawful) {clientId : Bytes}
    {keepAlive secured : Bool} {is : IStream} {padding : Padding} {connection : Connection} {cdata : ClientData}
    {response : Response ServerData} {ls : List Label} {s : State}
    (hrun : Runs (StepOf (State.step (createFilter z compressed) (requestCodec ar) (responseCodec ar) clientId
      keepAlive secured)) (.init is padding connection cdata response) ls s) :
    s.threads.client.answered.map Prod.fst <+: s.threads.client.pushed ∧
      (∀ p ∈ s.threads.client.answered, Answers p.1 p.2) ∧
      ∀ r, s.threads.client.pc ≠ .halted (.assertion r) := by
  have hinv := invariant_run (fun d hd => request_sound hz har hd.1 hd.2)
    (fun d r hr => sound_of_replied hz har hr) hrun
  exact ⟨⟨_, hinv.disciplined.pushed.symm⟩, hinv.agreed.answers, hinv.agreed.assertion⟩

/-! ### A connection lost -/

/-- The header of the request has arrived at a session when the connection is reset. The request is sent again
to another session, in pieces, and answered. -/
def resentSum : List Label :=
  List.replicate 5 (Label.thread (.scrape .zero)) ++ [Label.opened] ++
    List.replicate 2 (Label.thread (.client .internal)) ++
    [Label.written ⟨none, .eof⟩ blankResponse, .accepted 0 0 blankRequest blankResponse, .toServer 0 8,
      .completed 0 0 ⟨sumFrame.take 8, none, 0⟩, .read .connectionReset] ++
    List.replicate 2 (Label.thread (.client .internal)) ++ [Label.opened] ++
    List.replicate 2 (Label.thread (.client .internal)) ++
    [Label.written ⟨none, .eof⟩ blankResponse, .toServer 1 3, .accepted 1 1 blankRequest blankResponse,
      .toServer 1 5000, .completed 1 1 ⟨sumFrame.take 8, none, 0⟩,
      .completed 1 1 ⟨sumFrame.drop 8, none, 5⟩, .toClient 1 10, .toClient 1 5000, .read .eof,
      .thread (.client .internal)]

theorem request_response_agreement_resent :
    ∃ s, Runs (StepOf (State.step (createFilter ⟨id, .ok⟩ false) (requestCodec plainArchive)
        (responseCodec plainArchive) [ch 'a'] false false))
          (.init (.ofText (sumLine ++ [newline])) (.replicate 0) .fresh blankRequest blankResponse) resentSum s ∧
      s.threads.client.answered.length = 1 ∧
      s.threads.client.answered.map Prod.fst <+: s.threads.client.pushed ∧
      (∀ p ∈ s.threads.client.answered, Answers p.1 p.2) ∧
      ∀ r, s.threads.client.pc ≠ .halted (.assertion r) := by
  have hplay : (play (State.step (createFilter ⟨id, .ok⟩ false) (requestCodec plainArchive)
      (responseCodec plainArchive) [ch 'a'] false false)
        (.init (.ofText (sumLine ++ [newline])) (.replicate 0) .fresh blankRequest blankResponse) resentSum).any
          (fun s => decide (s.threads.client.answered.length = 1)) = true := by decide +kernel
  obtain ⟨s, hs, hone⟩ := (Option.any_eq_true _ _).mp hplay
  exact ⟨s, runs_of_play hs, of_decide_eq_true hone,
    request_response_agreement (by simp) plainArchive_lawful (runs_of_play hs)⟩

end Calculator

end TCPClientServer.System
