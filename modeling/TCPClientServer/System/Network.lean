import TCPClientServer.Calculator.Threads
import TCPClientServer.System.Link

/-!
# The client, the server and the network between them

The scraper and the client's thread, the server with its sessions, and the connections that the client has
opened so far, each with a session of its own. A connection breaks when the client is told of an error: it opens
another one, and what is still under way on the old one goes on arriving at its old session. The server also
has other clients, which send whatever they like.

* `State`, `Label` : the whole, and what can happen next;
* `step` : what it leads to; `Steps` lists the steps;
* `threads_of_steps`, `server_of_steps` : the threads and the server take their own steps only; `parts_of_runs`;
* `sent_of_halves` : the two halves of an exchange are a `send`, whatever happens between them.
-/

namespace TCPClientServer.System
open TCPClientServer.Basis TCPClientServer.Io TCPClientServer.Server TCPClientServer.Client TCPClientServer.Calculator

/-- The connections are those opened so far, the last of them the one in use; `awaiting` is the response of a
`send` that has written its request, not yet decoded into. -/
structure State where
  threads : Threads
  connection : Connection
  awaiting : Option (Response ServerData)
  channels : List Channel
  server : AsyncServer ClientData ServerData
  up : Bool

/-- What happens next: a step of a thread that uses no connection, a connection opened, the two halves of an
exchange with what the transport does, bytes that arrive on connection `k`, connection `k` accepted by session
`i`, the completion of an operation of this session, or another event of the server. -/
inductive Label where
  | thread (a : Action)
  | opened
  | written (k : Sink) (fresh : Response ServerData)
  | read (fault : Fault)
  | toServer (k n : Nat)
  | toClient (k n : Nat)
  | accepted (k i : Nat) (cdata : ClientData) (response : Response ServerData)
  | completed (k i : Nat) (c : Completion)
  | other (e : Event ClientData ServerData)

def isLocal : Action → Bool
  | .client (.opened (.ok _)) | .client (.sent _) => false
  | _ => true

def newest (channels : List Channel) : Option (Nat × Channel) :=
  channels.getLast?.map fun ch => (channels.length - 1, ch)

namespace State

def init (is : IStream) (padding : Padding) (connection : Connection) (cdata : ClientData)
    (response : Response ServerData) : State :=
  ⟨.init is padding, connection, none, [], .init cdata response, true⟩

def setChannel (s : State) (k : Nat) (ch : Channel) : State := { s with channels := s.channels.set k ch }

/-- The event is a completion for a session of this client. -/
def Own (s : State) (e : Event ClientData ServerData) : Prop :=
  match e with
  | .accepted .. => False
  | .completed i _ => ∃ ch ∈ s.channels, ch.session = some i

instance (s : State) (e : Event ClientData ServerData) : Decidable (s.Own e) := by
  unfold Own
  split <;> infer_instance

def written (server : AsyncServer ClientData ServerData) (i : Nat) : Bytes :=
  (server.sessions[i]?.map output).getD []

section Step
variable (f : Filter) (cd : Codec ClientData) (cr : Codec (Response ServerData)) (clientId : Bytes)
  (keepAlive secured : Bool)

def follow (s : State) (a : Action) : Option State :=
  (s.threads.step clientId keepAlive a).map fun threads => { s with threads }

/-- What the next event leads to, if it is possible. An exception of a handler ends the server. -/
def step (s : State) : Label → Option State
  | .thread a => if isLocal a then s.follow clientId keepAlive a else none
  | .opened => follow clientId keepAlive { s with channels := s.channels ++ [.empty] } (.client (.opened (.ok ())))
  | .written k fresh =>
    match s.threads.client.pc, s.awaiting, newest s.channels with
    | .sending d, none, some (j, ch) =>
      let w := s.connection.write f cd d k
      let s := setChannel { s with connection := w.connection } j (ch.put w.put)
      match w.ec with
      | none => some { s with awaiting := some fresh }
      | some e => follow clientId keepAlive s (.client (.sent (.ok (some e, fresh))))
    | _, _, _ => none
  | .read fault =>
    match s.awaiting, newest s.channels with
    | some fresh, some (j, ch) =>
      match s.connection.read f cr fresh ⟨[ch.atClient], fault⟩ with
      | .error e => follow clientId keepAlive { s with awaiting := none } (.client (.sent (.error e)))
      | .ok r =>
        let s := setChannel { s with awaiting := none, connection := r.connection } j (ch.leave r.source.bytes)
        follow clientId keepAlive s (.client (.sent (.ok (r.ec, r.value))))
    | _, _ => none
  | .toServer k n => s.channels[k]?.map fun ch => s.setChannel k (ch.deliverToServer n)
  | .toClient k n => s.channels[k]?.map fun ch => s.setChannel k (ch.deliverToClient n)
  | .accepted k i cdata response =>
    s.channels[k]?.bind fun ch =>
      if s.up ∧ ch.session = none ∧ s.server.Accepting i then
        match s.server.step f cd cr serverAction secured (.accepted i none cdata response) with
        | .error _ => none
        | .ok server => some (setChannel { s with server } k (ch.accept i))
      else none
  | .completed k i c =>
    s.channels[k]?.bind fun ch =>
      if s.up ∧ ch.session = some i ∧ s.server.Possible (.completed i c) ∧ c.received <+: ch.atServer then
        match s.server.step f cd cr serverAction secured (.completed i c) with
        | .error _ => some { s with up := false }
        | .ok server => some (setChannel { s with server } k (ch.serve c.received (written server i)))
      else none
  | .other e =>
    if s.up ∧ ¬ s.Own e ∧ s.server.Possible e then
      match s.server.step f cd cr serverAction secured e with
      | .error _ => some { s with up := false }
      | .ok server => some { s with server }
    else none

/-- The steps, one constructor for each way through `step`. -/
inductive Steps (s : State) : Label → State → Prop where
  | thread (a : Action) (hlocal : isLocal a = true) (threads : Threads)
    (hthreads : s.threads.step clientId keepAlive a = some threads) : Steps s (.thread a) { s with threads }
  | opened (threads : Threads)
    (hthreads : s.threads.step clientId keepAlive (.client (.opened (.ok ()))) = some threads) :
    Steps s .opened { s with threads, channels := s.channels ++ [.empty] }
  | written (k : Sink) (fresh : Response ServerData) (d : ClientData) (hpc : s.threads.client.pc = .sending d)
    (hawaiting : s.awaiting = none) (j : Nat) (ch : Channel) (hnewest : newest s.channels = some (j, ch))
    (hec : (s.connection.write f cd d k).ec = none) :
    Steps s (.written k fresh) (setChannel { s with
      connection := (s.connection.write f cd d k).connection, awaiting := some fresh } j
        (ch.put (s.connection.write f cd d k).put))
  | notWritten (k : Sink) (fresh : Response ServerData) (d : ClientData) (hpc : s.threads.client.pc = .sending d)
    (hawaiting : s.awaiting = none) (j : Nat) (ch : Channel) (hnewest : newest s.channels = some (j, ch)) (e : Fault)
    (hec : (s.connection.write f cd d k).ec = some e) (threads : Threads)
    (hthreads : s.threads.step clientId keepAlive (.client (.sent (.ok (some e, fresh)))) = some threads) :
    Steps s (.written k fresh) (setChannel { s with
      threads, connection := (s.connection.write f cd d k).connection } j
        (ch.put (s.connection.write f cd d k).put))
  | read (fault : Fault) (fresh : Response ServerData) (hawaiting : s.awaiting = some fresh) (j : Nat) (ch : Channel)
    (hnewest : newest s.channels = some (j, ch)) (r : Connection.Read (Response ServerData))
    (hread : s.connection.read f cr fresh ⟨[ch.atClient], fault⟩ = .ok r) (threads : Threads)
    (hthreads : s.threads.step clientId keepAlive (.client (.sent (.ok (r.ec, r.value)))) = some threads) :
    Steps s (.read fault) (setChannel { s with threads, awaiting := none, connection := r.connection } j
      (ch.leave r.source.bytes))
  | readThrows (fault : Fault) (fresh : Response ServerData) (hawaiting : s.awaiting = some fresh) (j : Nat)
    (ch : Channel) (hnewest : newest s.channels = some (j, ch)) (e : Exn)
    (hread : s.connection.read f cr fresh ⟨[ch.atClient], fault⟩ = .error e) (threads : Threads)
    (hthreads : s.threads.step clientId keepAlive (.client (.sent (.error e))) = some threads) :
    Steps s (.read fault) { s with threads, awaiting := none }
  | toServer (k n : Nat) (ch : Channel) (hch : s.channels[k]? = some ch) :
    Steps s (.toServer k n) (s.setChannel k (ch.deliverToServer n))
  | toClient (k n : Nat) (ch : Channel) (hch : s.channels[k]? = some ch) :
    Steps s (.toClient k n) (s.setChannel k (ch.deliverToClient n))
  | accepted (k i : Nat) (cdata : ClientData) (response : Response ServerData) (ch : Channel)
    (hch : s.channels[k]? = some ch) (hsession : ch.session = none) (hacc : s.server.Accepting i)
    (server : AsyncServer ClientData ServerData)
    (hserver : AsyncServer.Step f cd cr serverAction secured s.server (.accepted i none cdata response) server) :
    Steps s (.accepted k i cdata response) (setChannel { s with server } k (ch.accept i))
  | completed (k i : Nat) (c : Completion) (ch : Channel) (hch : s.channels[k]? = some ch)
    (hsession : ch.session = some i) (hpossible : s.server.Possible (.completed i c))
    (harrived : c.received <+: ch.atServer) (server : AsyncServer ClientData ServerData)
    (hserver : AsyncServer.Step f cd cr serverAction secured s.server (.completed i c) server) :
    Steps s (.completed k i c) (setChannel { s with server } k (ch.serve c.received (written server i)))
  | other (e : Event ClientData ServerData) (hown : ¬ s.Own e) (hpossible : s.server.Possible e)
    (server : AsyncServer ClientData ServerData)
    (hserver : AsyncServer.Step f cd cr serverAction secured s.server e server) : Steps s (.other e) { s with server }
  | crashed (l : Label) : Steps s l { s with up := false }

variable {f cd cr clientId keepAlive secured} {s s' : State} {l : Label}

theorem follow_eq_some {a : Action} (h : s.follow clientId keepAlive a = some s') :
    ∃ threads, s.threads.step clientId keepAlive a = some threads ∧ s' = { s with threads } := by
  obtain ⟨threads, hthreads, rfl⟩ := Option.map_eq_some_iff.mp h
  exact ⟨threads, hthreads, rfl⟩

theorem steps_of_step (h : s.step f cd cr clientId keepAlive secured l = some s') :
    Steps f cd cr clientId keepAlive secured s l s' := by
  cases l with
  | thread a =>
    rw [step] at h
    split at h
    · rename_i hlocal
      obtain ⟨threads, hthreads, rfl⟩ := follow_eq_some h
      exact .thread a hlocal threads hthreads
    · cases h
  | opened =>
    obtain ⟨threads, hthreads, rfl⟩ := follow_eq_some h
    exact .opened threads hthreads
  | written k fresh =>
    rw [step] at h
    split at h
    · rename_i d j ch hpc hawaiting hnewest
      dsimp only at h
      split at h
      · rename_i hec
        cases h
        exact .written k fresh d hpc hawaiting j ch hnewest hec
      · rename_i e hec
        obtain ⟨threads, hthreads, rfl⟩ := follow_eq_some h
        exact .notWritten k fresh d hpc hawaiting j ch hnewest e hec threads hthreads
    · cases h
  | read fault =>
    rw [step] at h
    split at h
    · rename_i fresh j ch hawaiting hnewest
      split at h
      · rename_i e hread
        obtain ⟨threads, hthreads, rfl⟩ := follow_eq_some h
        exact .readThrows fault fresh hawaiting j ch hnewest e hread threads hthreads
      · rename_i r hread
        obtain ⟨threads, hthreads, rfl⟩ := follow_eq_some h
        exact .read fault fresh hawaiting j ch hnewest r hread threads hthreads
    · cases h
  | toServer k n =>
    obtain ⟨ch, hch, rfl⟩ := Option.map_eq_some_iff.mp h
    exact .toServer k n ch hch
  | toClient k n =>
    obtain ⟨ch, hch, rfl⟩ := Option.map_eq_some_iff.mp h
    exact .toClient k n ch hch
  | accepted k i cdata response =>
    obtain ⟨ch, hch, h⟩ := Option.bind_eq_some_iff.mp h
    split at h
    · rename_i hguard
      split at h
      · cases h
      · rename_i server hserver
        cases h
        exact .accepted k i cdata response ch hch hguard.2.1 hguard.2.2 server hserver
    · cases h
  | completed k i c =>
    obtain ⟨ch, hch, h⟩ := Option.bind_eq_some_iff.mp h
    split at h
    · rename_i hguard
      split at h
      · cases h
        exact .crashed _
      · rename_i server hserver
        cases h
        exact .completed k i c ch hch hguard.2.1 hguard.2.2.1 hguard.2.2.2 server hserver
    · cases h
  | other e =>
    rw [step] at h
    split at h
    · rename_i hguard
      split at h
      · cases h
        exact .crashed _
      · rename_i server hserver
        cases h
        exact .other e hguard.2.1 hguard.2.2 server hserver
    · cases h

/-! ## The parts in a step -/

theorem threads_of_steps (h : Steps f cd cr clientId keepAlive secured s l s') :
    s'.threads = s.threads ∨ ∃ a, s.threads.step clientId keepAlive a = some s'.threads := by
  cases h with
  | thread a hlocal threads hthreads => exact .inr ⟨a, hthreads⟩
  | opened threads hthreads => exact .inr ⟨_, hthreads⟩
  | notWritten k fresh d hpc hawaiting j ch hnewest e hec threads hthreads => exact .inr ⟨_, hthreads⟩
  | read fault fresh hawaiting j ch hnewest r hread threads hthreads => exact .inr ⟨_, hthreads⟩
  | readThrows fault fresh hawaiting j ch hnewest e hread threads hthreads => exact .inr ⟨_, hthreads⟩
  | _ => exact .inl rfl

theorem server_of_steps (h : Steps f cd cr clientId keepAlive secured s l s') :
    s'.server = s.server ∨ ∃ e, AsyncServer.Step f cd cr serverAction secured s.server e s'.server := by
  cases h with
  | accepted k i cdata response ch hch hsession hacc server hserver => exact .inr ⟨_, hserver⟩
  | completed k i c ch hch hsession hpossible harrived server hserver => exact .inr ⟨_, hserver⟩
  | other e hown hpossible server hserver => exact .inr ⟨e, hserver⟩
  | _ => exact .inl rfl

/-- **In a run of the whole the parts have runs of their own.** -/
theorem parts_of_runs {ls : List Label} (h : Runs (StepOf (step f cd cr clientId keepAlive secured)) s ls s') :
    (∃ as, Runs (StepOf (Threads.step clientId keepAlive)) s.threads as s'.threads) ∧
      ∃ es, Runs (AsyncServer.Step f cd cr serverAction secured) s.server es s'.server := by
  refine h.invariant (I := fun _ t => (∃ as, Runs (StepOf (Threads.step clientId keepAlive)) s.threads as t.threads) ∧
    ∃ es, Runs (AsyncServer.Step f cd cr serverAction secured) s.server es t.server) ⟨⟨[], .nil _⟩, [], .nil _⟩ ?_
  rintro ls t l u - ⟨⟨as, hthreads⟩, es, hserver⟩ hstep
  have hsteps := steps_of_step hstep
  constructor
  · rcases threads_of_steps hsteps with hsame | ⟨a, ha⟩
    · exact ⟨as, hsame ▸ hthreads⟩
    · exact ⟨as ++ [a], hthreads.snoc ha⟩
  · rcases server_of_steps hsteps with hsame | ⟨e, he⟩
    · exact ⟨es, hsame ▸ hserver⟩
    · exact ⟨es ++ [e], hserver.snoc he⟩

/-! ## The two halves of an exchange -/

theorem sent_of_not_written {k : Sink} {fresh : Response ServerData} {source : Source}
    (hwritten : s.step f cd cr clientId keepAlive secured (.written k fresh) = some s') (hnone : s'.awaiting = none) :
    ∃ d, s.threads.client.pc = .sending d ∧ s.threads.step clientId keepAlive (.client (.sent
      ((Client.send f cd cr s.connection d k fresh source).map fun r => (r.ec, r.response)))) = some s'.threads := by
  rw [step] at hwritten
  split at hwritten
  · rename_i d j ch hpc hawaiting hnewest
    dsimp only at hwritten
    split at hwritten
    · cases hwritten
      simp at hnone
    · rename_i e hec
      obtain ⟨threads, hthreads, rfl⟩ := follow_eq_some hwritten
      refine ⟨d, hpc, ?_⟩
      rw [Client.send, hec]
      exact hthreads
  · cases hwritten

/-- Until the response is read, nothing else uses the connection. -/
theorem awaiting_of_steps {fresh : Response ServerData} (h : Steps f cd cr clientId keepAlive secured s l s')
    (hawaiting : s.awaiting = some fresh) (hl : ∀ fault, l ≠ .read fault) :
    s'.awaiting = some fresh ∧ s'.connection = s.connection := by
  cases h with
  | written k fresh' d hpc hnone j ch hnewest hec => simp [hnone] at hawaiting
  | notWritten k fresh' d hpc hnone j ch hnewest e hec threads hthreads => simp [hnone] at hawaiting
  | read fault fresh' hsome j ch hnewest r hread threads hthreads => exact absurd rfl (hl fault)
  | readThrows fault fresh' hsome j ch hnewest e hread threads hthreads => exact absurd rfl (hl fault)
  | _ => exact ⟨hawaiting, rfl⟩

/-- **The two halves of an exchange are a `send`**, whatever happens between them: on the connection as it was
before the first, and with the bytes that have arrived by the second. -/
theorem sent_of_halves {k : Sink} {fresh : Response ServerData} {ls : List Label} {fault : Fault} {s₁ s₂ : State}
    (hwritten : s.step f cd cr clientId keepAlive secured (.written k fresh) = some s₁)
    (hsome : s₁.awaiting ≠ none)
    (hruns : Runs (StepOf (step f cd cr clientId keepAlive secured)) s₁ ls s₂) (hls : ∀ fault, .read fault ∉ ls)
    (hread : s₂.step f cd cr clientId keepAlive secured (.read fault) = some s') :
    ∃ d j ch, s.threads.client.pc = .sending d ∧ newest s₂.channels = some (j, ch) ∧
      s₂.threads.step clientId keepAlive (.client (.sent
        ((Client.send f cd cr s.connection d k fresh ⟨[ch.atClient], fault⟩).map fun r => (r.ec, r.response)))) =
          some s'.threads := by
  rw [step] at hwritten
  split at hwritten
  · rename_i d j ch hpc hnone hnewest
    dsimp only at hwritten
    split at hwritten
    · rename_i hec
      cases hwritten
      have hbetween : s₂.awaiting = some fresh ∧ s₂.connection = (s.connection.write f cd d k).connection :=
        hruns.invariant_of_always (P := fun _ l => ∀ fault, l ≠ .read fault)
          (I := fun _ t => t.awaiting = some fresh ∧ t.connection = (s.connection.write f cd d k).connection)
          (fun es₁ l es₂ t hes _ fault hl => hls fault (by simp [hes, hl])) ⟨rfl, rfl⟩
          fun _ t l u ⟨hawaiting, hconnection⟩ hl hstep => by
            obtain ⟨hawaiting', hconnection'⟩ := awaiting_of_steps (steps_of_step hstep) hawaiting hl
            exact ⟨hawaiting', hconnection'.trans hconnection⟩
      obtain ⟨hawaiting₂, hconnection₂⟩ := hbetween
      rw [step, hawaiting₂, hconnection₂] at hread
      split at hread
      · rename_i fresh' j' ch' heq hnewest'
        cases heq
        refine ⟨d, j', ch', hpc, hnewest', ?_⟩
        rw [send_of_write hec]
        split at hread
        · rename_i e hthrows
          obtain ⟨threads, hthreads, rfl⟩ := follow_eq_some hread
          rw [hthrows]
          exact hthreads
        · rename_i r hreads
          obtain ⟨threads, hthreads, rfl⟩ := follow_eq_some hread
          rw [hreads]
          exact hthreads
      · cases hread
    · rename_i e hec
      obtain ⟨threads, hthreads, rfl⟩ := follow_eq_some hwritten
      exact absurd hnone hsome
  · cases hwritten

end Step

end State

end TCPClientServer.System
