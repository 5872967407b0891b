import TCPClientServer.System.Completion

/-!
# Several clients

Clients with threads, input and connections of their own, and one server. Each of them sees the others through
the server only: what they make it do are to this client events of other clients' sessions.

* `Party`, `World`, `Happening` : the clients with the server, and what can happen next;
* `World.view`, `seenBy` : what one client sees;
* `Apart` : no two clients have a session in common; `apart_steps`;
* `view_run` : in a run of all, each client has a run as if it were the only one;
* `every_client_served`.
-/

namespace TCPClientServer.System
open TCPClientServer.Basis TCPClientServer.Io TCPClientServer.Server TCPClientServer.Client TCPClientServer.Calculator

structure Party where
  clientId : Bytes
  keepAlive : Bool
  threads : Threads
  connection : Connection
  awaiting : Option (Response ServerData)
  channels : List Channel

structure World where
  parties : List Party
  server : AsyncServer ClientData ServerData
  up : Bool

/-- What happens next: something that this client does or that is done for it, or an event of a session that none
of the clients has. -/
inductive Happening where
  | of (p : Nat) (l : Label)
  | other (e : Event ClientData ServerData)

structure Beginning where
  clientId : Bytes
  keepAlive : Bool
  text : Bytes
  padding : Padding
  connection : Connection

def Beginning.party (b : Beginning) : Party :=
  ⟨b.clientId, b.keepAlive, .init (.ofText b.text) b.padding, b.connection, none, []⟩

/-- The same client, alone with the server. -/
def Beginning.state (b : Beginning) (cdata : ClientData) (response : Response ServerData) : State :=
  .init (.ofText b.text) b.padding b.connection cdata response

/-- The event of the server in a step. -/
def Label.event : Label → Option (Event ClientData ServerData)
  | .accepted _ i cdata response => some (.accepted i none cdata response)
  | .completed _ i c => some (.completed i c)
  | .other e => some e
  | _ => none

def Label.isOwn : Label → Bool
  | .other _ => false
  | _ => true

def Happening.seenBy (p : Nat) : Happening → Option Label
  | .of q l => if q = p then some l else l.event.map .other
  | .other e => some (.other e)

def Party.Has (c : Party) (i : Nat) : Prop := ∃ ch ∈ c.channels, ch.session = some i

instance (c : Party) (i : Nat) : Decidable (c.Has i) := inferInstanceAs (Decidable (∃ ch ∈ c.channels, _))

namespace World

def init (bs : List Beginning) (cdata : ClientData) (response : Response ServerData) : World :=
  ⟨bs.map Beginning.party, .init cdata response, true⟩

def view (w : World) (c : Party) : State := ⟨c.threads, c.connection, c.awaiting, c.channels, w.server, w.up⟩

/-- Client `p` has come to this state, and the server with it. -/
def put (w : World) (p : Nat) (c : Party) (s : State) : World where
  parties := w.parties.set p
    { c with threads := s.threads, connection := s.connection, awaiting := s.awaiting, channels := s.channels }
  server := s.server
  up := s.up

section Step
variable (f : Filter) (cd : Codec ClientData) (cr : Codec (Response ServerData)) (secured : Bool)

/-- What the next happening leads to, if it is possible. -/
def step (w : World) : Happening → Option World
  | .of p l =>
    w.parties[p]?.bind fun c =>
      if l.isOwn then ((w.view c).step f cd cr c.clientId c.keepAlive secured l).map (w.put p c) else none
  | .other e =>
    if w.up ∧ (∀ c ∈ w.parties, ¬ (w.view c).Own e) ∧ w.server.Possible e then
      match w.server.step f cd cr serverAction secured e with
      | .error _ => some { w with up := false }
      | .ok server => some { w with server }
    else none

/-- What a step does to the server. -/
def Serves (server : AsyncServer ClientData ServerData) (up : Bool) (e : Option (Event ClientData ServerData))
    (server' : AsyncServer ClientData ServerData) (up' : Bool) : Prop :=
  match e with
  | none => server' = server ∧ up' = up
  | some e => up = true ∧ server.Possible e ∧
      ((∃ x, server.step f cd cr serverAction secured e = .error x ∧ server' = server ∧ up' = false) ∨
        server.step f cd cr serverAction secured e = .ok server' ∧ up' = true)

variable {f cd cr secured} {clientId : Bytes} {keepAlive : Bool} {s s' : State} {l : Label}

theorem serves_of_follow {s₀ : State} {a : Action} (h : State.follow clientId keepAlive s a = some s')
    (hserver : s.server = s₀.server) (hup : s.up = s₀.up) :
    Serves f cd cr secured s₀.server s₀.up none s'.server s'.up := by
  obtain ⟨threads, -, rfl⟩ := State.follow_eq_some h
  exact ⟨hserver, hup⟩

/-- **The server in a step of a client**: the event of the step, if it has one, and nothing else. -/
theorem serves_of_step (h : s.step f cd cr clientId keepAlive secured l = some s') :
    Serves f cd cr secured s.server s.up l.event s'.server s'.up := by
  cases l with
  | thread a =>
    rw [State.step] at h
    split at h
    · exact serves_of_follow h rfl rfl
    · cases h
  | opened => exact serves_of_follow h rfl rfl
  | written k fresh =>
    rw [State.step] at h
    split at h
    · dsimp only at h
      split at h
      · cases h
        exact ⟨rfl, rfl⟩
      · exact serves_of_follow h rfl rfl
    · cases h
  | read fault =>
    rw [State.step] at h
    split at h
    · split at h
      · exact serves_of_follow h rfl rfl
      · exact serves_of_follow h rfl rfl
    · cases h
  | toServer k n =>
    obtain ⟨ch, -, rfl⟩ := Option.map_eq_some_iff.mp h
    exact ⟨rfl, rfl⟩
  | toClient k n =>
    obtain ⟨ch, -, rfl⟩ := Option.map_eq_some_iff.mp h
    exact ⟨rfl, rfl⟩
  | accepted k i cdata response =>
    obtain ⟨ch, -, h⟩ := Option.bind_eq_some_iff.mp h
    split at h
    · rename_i hguard
      split at h
      · cases h
      · rename_i server hserver
        cases h
        exact ⟨hguard.1, hguard.2.2, .inr ⟨hserver, hguard.1⟩⟩
    · cases h
  | completed k i c =>
    obtain ⟨ch, -, h⟩ := Option.bind_eq_some_iff.mp h
    split at h
    · rename_i hguard
      refine ⟨hguard.1, hguard.2.2.1, ?_⟩
      split at h
      · rename_i x hserver
        cases h
        exact .inl ⟨x, hserver, rfl, rfl⟩
      · rename_i server hserver
        cases h
        exact .inr ⟨hserver, hguard.1⟩
    · cases h
  | other e =>
    rw [State.step] at h
    split at h
    · rename_i hguard
      refine ⟨hguard.1, hguard.2.2, ?_⟩
      split at h
      · rename_i x hserver
        cases h
        exact .inl ⟨x, hserver, rfl, rfl⟩
      · rename_i server hserver
        cases h
        exact .inr ⟨hserver, hguard.1⟩
    · cases h

/-- A client that does not have the session of an event sees the event as another's. -/
theorem step_other_of_serves {e : Event ClientData ServerData} {server : AsyncServer ClientData ServerData} {up : Bool}
    (h : Serves f cd cr secured s.server s.up (some e) server up) (hown : ¬ s.Own e) :
    s.step f cd cr clientId keepAlive secured (.other e) = some { s with server, up } := by
  obtain ⟨hup, hpossible, ⟨x, hstep, rfl, rfl⟩ | ⟨hstep, rfl⟩⟩ := h
  · simp only [State.step, if_pos (And.intro hup (And.intro hown hpossible)), hstep]
  · rw [State.step, if_pos (And.intro hup (And.intro hown hpossible)), hstep]
    simp only [hup]

/-! ## The sessions of the clients -/

/-- Each client's connections have sessions of their own, and no two clients have one in common. -/
structure Apart (w : World) : Prop where
  owned : ∀ c ∈ w.parties, Owned w.server c.channels
  unique : ∀ (p q : Nat) (c c' : Party) (i : Nat), w.parties[p]? = some c → w.parties[q]? = some c' →
    c.Has i → c'.Has i → p = q

variable {w w' : World} {p : Nat} {c : Party}

theorem has_of_steps {i : Nat} (h : State.Steps f cd cr clientId keepAlive secured s l s')
    (hhas : ∃ ch ∈ s'.channels, ch.session = some i) :
    (∃ ch ∈ s.channels, ch.session = some i) ∨ s.server.Accepting i := by
  have hset : ∀ (k : Nat) (ch ch' : Channel), s.channels[k]? = some ch →
      (∃ ch₁ ∈ s.channels.set k ch', ch₁.session = some i) → ch'.session = ch.session →
      ∃ ch₁ ∈ s.channels, ch₁.session = some i := by
    rintro k ch ch' hch ⟨ch₁, hmem, hi⟩ hsession
    rcases List.mem_or_eq_of_mem_set hmem with hmem | rfl
    · exact ⟨ch₁, hmem, hi⟩
    · exact ⟨ch, List.mem_of_getElem? hch, hsession ▸ hi⟩
  cases h with
  | thread a hlocal threads hthreads => exact .inl hhas
  | opened threads hthreads =>
    obtain ⟨ch, hmem, hi⟩ := hhas
    rcases List.mem_append.mp hmem with hmem | hmem
    · exact .inl ⟨ch, hmem, hi⟩
    · obtain rfl := List.mem_singleton.mp hmem
      cases hi
  | written k fresh d hpc hawaiting j ch hnewest hec =>
    exact .inl (hset j ch _ (newest_eq_some_iff.mp hnewest).1 hhas rfl)
  | notWritten k fresh d hpc hawaiting j ch hnewest e hec threads hthreads =>
    exact .inl (hset j ch _ (newest_eq_some_iff.mp hnewest).1 hhas rfl)
  | read fault fresh hawaiting j ch hnewest r hread threads hthreads =>
    exact .inl (hset j ch _ (newest_eq_some_iff.mp hnewest).1 hhas rfl)
  | readThrows fault fresh hawaiting j ch hnewest e hread threads hthreads => exact .inl hhas
  | toServer k n ch hch => exact .inl (hset k ch _ hch hhas rfl)
  | toClient k n ch hch => exact .inl (hset k ch _ hch hhas rfl)
  | accepted k i' cdata response ch hch hsession hacc server hserver =>
    obtain ⟨ch₁, hmem, hi⟩ := hhas
    rcases List.mem_or_eq_of_mem_set hmem with hmem | rfl
    · exact .inl ⟨ch₁, hmem, hi⟩
    · cases hi
      exact .inr hacc
  | completed k i' c ch hch hsession hpossible harrived server hserver => exact .inl (hset k ch _ hch hhas rfl)
  | other e hown hpossible server hserver => exact .inl hhas
  | crashed l => exact .inl hhas

theorem has_of_event {i : Nat} {e : Completion} (h : s.step f cd cr clientId keepAlive secured l = some s')
    (hown : l.isOwn = true) (hevent : l.event = some (.completed i e)) : ∃ ch ∈ s.channels, ch.session = some i := by
  cases l with
  | completed k i' e' =>
    cases hevent
    obtain ⟨ch, hch, h⟩ := Option.bind_eq_some_iff.mp h
    split at h
    · rename_i hguard
      exact ⟨ch, List.mem_of_getElem? hch, hguard.2.1⟩
    · cases h
  | other e' => cases hown
  | _ => cases hevent

/-! ## All steps -/

variable (f cd cr secured) in
/-- The steps, one constructor for each way through `step`. -/
inductive Steps (w : World) : Happening → World → Prop where
  | of (p : Nat) (l : Label) (hown : l.isOwn = true) (c : Party) (hc : w.parties[p]? = some c) (s : State)
    (hs : (w.view c).step f cd cr c.clientId c.keepAlive secured l = some s) : Steps w (.of p l) (w.put p c s)
  | other (e : Event ClientData ServerData) (hothers : ∀ c ∈ w.parties, ¬ (w.view c).Own e)
    (server : AsyncServer ClientData ServerData) (up : Bool)
    (hserves : Serves f cd cr secured w.server w.up (some e) server up) : Steps w (.other e) { w with server, up }

variable {hap : Happening}

theorem steps_of_step (hstep : w.step f cd cr secured hap = some w') : Steps f cd cr secured w hap w' := by
  cases hap with
  | of p l =>
    obtain ⟨c, hc, hstep⟩ := Option.bind_eq_some_iff.mp hstep
    split at hstep
    · rename_i hown
      obtain ⟨s, hs, rfl⟩ := Option.map_eq_some_iff.mp hstep
      exact .of p l hown c hc s hs
    · cases hstep
  | other e =>
    rw [step] at hstep
    split at hstep
    · rename_i hguard
      obtain ⟨hup, hothers, hpossible⟩ := hguard
      split at hstep
      · rename_i x hserver
        cases hstep
        exact .other e hothers w.server false ⟨hup, hpossible, .inl ⟨x, hserver, rfl, rfl⟩⟩
      · rename_i server hserver
        cases hstep
        exact .other e hothers server w.up ⟨hup, hpossible, .inr ⟨hserver, hup⟩⟩
    · cases hstep

theorem owned_of_serves {server server' : AsyncServer ClientData ServerData} {up up' : Bool}
    {e : Option (Event ClientData ServerData)} {channels : List Channel} (h : Owned server channels)
    (hserves : Serves f cd cr secured server up e server' up') : Owned server' channels := by
  cases e with
  | none =>
    rw [hserves.1]
    exact h
  | some e =>
    obtain ⟨-, -, ⟨x, -, rfl, -⟩ | ⟨hstep, -⟩⟩ := hserves
    · exact h
    · exact owned_server h hstep

theorem Apart.not_accepting {i : Nat} (h : w.Apart) (hc : c ∈ w.parties) (hhas : c.Has i) : ¬ w.server.Accepting i := by
  rintro ⟨t, ht, hp⟩
  obtain ⟨ch, hch, hi⟩ := hhas
  obtain ⟨k, hk⟩ := List.mem_iff_getElem?.mp hch
  obtain ⟨t', ht', hp'⟩ := (h.owned c hc).session k ch i hk hi
  rw [ht] at ht'
  cases ht'
  exact hp' hp

theorem has_of_put {q i : Nat} {c' : Party} {s : State}
    (hs : (w.view c).step f cd cr clientId keepAlive secured l = some s) (hc : w.parties[p]? = some c)
    (hc' : (w.put p c s).parties[q]? = some c') (hhas : c'.Has i) :
    (∃ c₀, w.parties[q]? = some c₀ ∧ c₀.Has i) ∨ q = p ∧ w.server.Accepting i := by
  simp only [put, List.getElem?_set] at hc'
  split at hc'
  · rename_i hq
    split at hc'
    swap
    · cases hc'
    cases hc'
    rcases has_of_steps (State.steps_of_step hs) hhas with hold | hacc
    · exact .inl ⟨c, hq ▸ hc, hold⟩
    · exact .inr ⟨hq.symm, hacc⟩
  · exact .inl ⟨c', hc', hhas⟩

/-- **Every step keeps the clients apart.** -/
theorem apart_steps (h : w.Apart) (hsteps : Steps f cd cr secured w hap w') : w'.Apart := by
  cases hsteps with
  | other e hothers server up hserves =>
    exact ⟨fun c hc => owned_of_serves (h.owned c hc) hserves, h.unique⟩
  | of p l hown c hc s hs =>
    constructor
    · intro c' hc'
      rcases List.mem_or_eq_of_mem_set hc' with hmem | rfl
      · exact owned_of_serves (h.owned c' hmem) (serves_of_step hs)
      · exact owned_steps (h.owned c (List.mem_of_getElem? hc)) (State.steps_of_step hs)
    · intro q q' c₁ c₂ i hq hq' hhas hhas'
      rcases has_of_put hs hc hq hhas with ⟨c₀, h₀, hold⟩ | ⟨rfl, hacc⟩
      · rcases has_of_put hs hc hq' hhas' with ⟨c₀', h₀', hold'⟩ | ⟨rfl, hacc⟩
        · exact h.unique q q' c₀ c₀' i h₀ h₀' hold hold'
        · exact absurd hacc (h.not_accepting (List.mem_of_getElem? h₀) hold)
      · rcases has_of_put hs hc hq' hhas' with ⟨c₀', h₀', hold'⟩ | ⟨rfl, -⟩
        · exact absurd hacc (h.not_accepting (List.mem_of_getElem? h₀') hold')
        · rfl

/-- **What one client sees of a step** is a step of its own system, or nothing. -/
theorem view_steps (h : w.Apart) (hc : w.parties[p]? = some c) (hsteps : Steps f cd cr secured w hap w') :
    ∃ c', w'.parties[p]? = some c' ∧ c'.clientId = c.clientId ∧ c'.keepAlive = c.keepAlive ∧
      match hap.seenBy p with
      | some l => (w.view c).step f cd cr c.clientId c.keepAlive secured l = some (w'.view c')
      | none => w'.view c' = w.view c := by
  cases hsteps with
  | other e hothers server up hserves =>
    exact ⟨c, hc, rfl, rfl, step_other_of_serves hserves (hothers c (List.mem_of_getElem? hc))⟩
  | of q l hown c₁ hc₁ s hs =>
    by_cases hq : q = p
    · subst hq
      rw [hc] at hc₁
      cases hc₁
      have hlt := (List.getElem?_eq_some_iff.mp hc).1
      refine ⟨_, List.getElem?_set_self hlt, rfl, rfl, ?_⟩
      rw [Happening.seenBy, if_pos rfl]
      exact hs
    · refine ⟨c, by rw [put, List.getElem?_set_ne hq, hc], rfl, rfl, ?_⟩
      rw [Happening.seenBy, if_neg hq]
      have hserves := serves_of_step hs
      cases hevent : l.event with
      | none =>
        rw [hevent] at hserves
        simp only [Option.map_none, view, put, hserves.1, hserves.2]
      | some e =>
        rw [hevent] at hserves
        refine step_other_of_serves hserves fun hOwn => ?_
        cases e with
        | accepted i ec cdata response => exact hOwn
        | completed i comp => exact hq (h.unique q p c₁ c i hc₁ hc (has_of_event hs hown hevent) hOwn)

/-! ## Every run -/

theorem apart_init (bs : List Beginning) (cdata : ClientData) (response : Response ServerData) :
    (init bs cdata response).Apart := by
  have hnone : ∀ c ∈ (init bs cdata response).parties, c.channels = [] := by
    intro c hc
    obtain ⟨b, -, rfl⟩ := List.mem_map.mp hc
    rfl
  refine ⟨fun c hc => ?_, fun p q c c' i hc hc' hhas => ?_⟩
  · rw [hnone c hc]
    exact ⟨AsyncServer.wellFormed_init cdata response, by simp, by simp⟩
  · rw [Party.Has, hnone c (List.mem_of_getElem? hc)] at hhas
    simp at hhas

/-- **In a run of all clients each of them has a run of its own**, as if it were the only one, with what the others
make the server do as events that are not its own. -/
theorem view_run {hs : List Happening} (hrun : Runs (StepOf (step f cd cr secured)) w hs w') (h : w.Apart)
    (hc : w.parties[p]? = some c) :
    ∃ c', w'.parties[p]? = some c' ∧ c'.clientId = c.clientId ∧ c'.keepAlive = c.keepAlive ∧
      Runs (StepOf (State.step f cd cr c.clientId c.keepAlive secured)) (w.view c) (hs.filterMap (Happening.seenBy p))
        (w'.view c') := by
  obtain ⟨s, hs', -, c', hc', hid, hkeep, rfl⟩ := hrun.project
    (StepOf (State.step f cd cr c.clientId c.keepAlive secured)) (w.view c) (Happening.seenBy p)
    (R := fun u s => u.Apart ∧ ∃ c', u.parties[p]? = some c' ∧ c'.clientId = c.clientId ∧
      c'.keepAlive = c.keepAlive ∧ s = u.view c') ⟨h, c, hc, rfl, rfl, rfl⟩
    (by
      rintro u s hap u' l ⟨hapart, c₁, hc₁, hid, hkeep, rfl⟩ hstep hseen
      have hsteps := steps_of_step hstep
      obtain ⟨c', hc', hid', hkeep', hview⟩ := view_steps hapart hc₁ hsteps
      rw [hseen, hid, hkeep] at hview
      exact ⟨_, hview, apart_steps hapart hsteps, c', hc', hid'.trans hid, hkeep'.trans hkeep, rfl⟩)
    (by
      rintro u s hap u' ⟨hapart, c₁, hc₁, hid, hkeep, rfl⟩ hstep hseen
      have hsteps := steps_of_step hstep
      obtain ⟨c', hc', hid', hkeep', hview⟩ := view_steps hapart hc₁ hsteps
      rw [hseen] at hview
      exact ⟨apart_steps hapart hsteps, c', hc', hid'.trans hid, hkeep'.trans hkeep, hview.symm⟩)
  exact ⟨c', hc', hid, hkeep, hs'⟩

end Step

end World

section Calculator
variable {z : Zlib} {compressed : Bool} {ar : TextArchive}

/-- **Every client is served as if it were the only one**, in every run of any number of clients and their server,
whatever happens to other sessions: what it has been given are correct responses to the first data of its own
input, in their order and one for each, no assertion of it has failed, and if it has returned, after settled
stops of its own, whatever stops the others make, to all of them. -/
theorem every_client_served (hz : compressed = true → z.Lawful) (har : ar.Lawful) {secured : Bool}
    {bs : List Beginning} {cdata : ClientData} {response : Response ServerData} {hs : List Happening} {w : World}
    (hrun : Runs (StepOf (World.step (createFilter z compressed) (requestCodec ar) (responseCodec ar) secured))
      (.init bs cdata response) hs w) (p : Nat) (b : Beginning) (hb : bs[p]? = some b) :
    ∃ c us, w.parties[p]? = some c ∧
      c.threads.client.answered.map Prod.fst <+: dataIn b.clientId us (readable b.text) ∧
      (∀ x ∈ c.threads.client.answered, Answers x.1 x.2) ∧
      (∀ r, c.threads.client.pc ≠ .halted (.assertion r)) ∧
      (b.keepAlive = false → c.threads.client.pc = .returned →
        Always (StepOf (State.step (createFilter z compressed) (requestCodec ar) (responseCodec ar) b.clientId false
          secured)) (State.Settled b.clientId) (b.state cdata response) (hs.filterMap (Happening.seenBy p)) →
        c.threads.client.answered.map Prod.fst = dataIn b.clientId us (readable b.text)) := by
  have hparty : (World.init bs cdata response).parties[p]? = some b.party := by
    rw [World.init, List.getElem?_map, hb, Option.map_some]
  obtain ⟨c, hc, hid, hkeep, hview⟩ := World.view_run hrun (World.apart_init bs cdata response) hparty
  have hinv := invariant_run (fun d hd => request_sound hz har hd.1 hd.2)
    (fun d r hr => sound_of_replied hz har hr) hview
  obtain ⟨us, hprefix, hall⟩ := answered_of_invariant hinv (scraping_run hview)
  refine ⟨c, us, hc, hprefix, hinv.agreed.answers, hinv.agreed.assertion, fun hnot hpc hsettled => hall hpc ?_⟩
  have hkeep : b.party.keepAlive = false := hnot
  rw [hkeep] at hview
  exact drained_run hview hsettled hpc

/-! ### Crossed clients -/

/-- Two clients with the same sum, and a third one whose sum is on a last line without a line break. -/
def crossedBeginnings : List Beginning :=
  [⟨[ch 'a'], false, sumLine ++ [newline], .replicate 0, .fresh⟩,
    ⟨[ch 'b'], false, sumLine ++ [newline], .replicate 0, .fresh⟩, ⟨[ch 'c'], false, sumLine, .replicate 0, .fresh⟩]

def otherSumFrame : Bytes :=
  frame (createFilter ⟨id, .ok⟩ false) (requestCodec plainArchive) { sumRequest with clientId := [ch 'b'] }

def askedSum : List Label :=
  List.replicate 10 (Label.thread (.scrape .zero)) ++ [Label.opened] ++
    List.replicate 2 (Label.thread (.client .internal)) ++ [Label.written ⟨none, .eof⟩ blankResponse]

def returnedSum : List Label :=
  [Label.toClient 0 5000, .read .eof] ++ List.replicate 4 (Label.thread (.client .internal))

/-- The third client returns before it has parsed its line. The second one is accepted first, its request is received
between the two parts of the other's, and it returns last. -/
def crossedSums : List Happening :=
  (List.replicate 2 (Label.thread (.scrape .zero)) ++ [Label.opened] ++
      List.replicate 4 (Label.thread (.client .internal))).map (Happening.of 2) ++
    askedSum.map (Happening.of 0) ++ askedSum.map (Happening.of 1) ++
    [Happening.of 1 (.accepted 0 0 blankRequest blankResponse), .of 0 (.accepted 0 1 blankRequest blankResponse),
      .of 0 (.toServer 0 5000), .of 1 (.toServer 0 5000), .of 0 (.completed 0 1 ⟨sumFrame.take 8, none, 0⟩),
      .of 1 (.completed 0 0 ⟨otherSumFrame.take 8, none, 0⟩), .of 1 (.completed 0 0 ⟨otherSumFrame.drop 8, none, 5⟩),
      .of 0 (.completed 0 1 ⟨sumFrame.drop 8, none, 6⟩)] ++
    returnedSum.map (Happening.of 0) ++ returnedSum.map (Happening.of 1)

/-- The second client is answered, although the third one has left its sum behind. -/
theorem every_client_served_crossed :
    ∃ w c us, Runs (StepOf (World.step (createFilter ⟨id, .ok⟩ false) (requestCodec plainArchive)
        (responseCodec plainArchive) false)) (.init crossedBeginnings blankRequest blankResponse) crossedSums w ∧
      w.parties[1]? = some c ∧
      c.threads.client.answered.map Prod.fst <+: dataIn [ch 'b'] us (readable (sumLine ++ [newline])) ∧
      (∀ x ∈ c.threads.client.answered, Answers x.1 x.2) ∧
      (∀ r, c.threads.client.pc ≠ .halted (.assertion r)) ∧
      c.threads.client.answered.map Prod.fst = dataIn [ch 'b'] us (readable (sumLine ++ [newline])) ∧
      ∃ c₂, w.parties[2]? = some c₂ ∧ c₂.threads.client.pc = .returned ∧ c₂.threads.client.answered = [] := by
  have hplay : (play (World.step (createFilter ⟨id, .ok⟩ false) (requestCodec plainArchive)
      (responseCodec plainArchive) false) (.init crossedBeginnings blankRequest blankResponse) crossedSums).any
        (fun w => (w.parties[1]?.any fun c => decide (c.threads.client.pc = .returned)) &&
          w.parties[2]?.any fun c => decide (c.threads.client.pc = .returned ∧ c.threads.client.answered = [])) =
        true := by
    decide +kernel
  have hown : (play (guarded (State.step (createFilter ⟨id, .ok⟩ false) (requestCodec plainArchive)
      (responseCodec plainArchive) [ch 'b'] false false) (State.Settled [ch 'b']))
        (.init (.ofText (sumLine ++ [newline])) (.replicate 0) .fresh blankRequest blankResponse)
        (crossedSums.filterMap (Happening.seenBy 1))).isSome = true := by
    decide +kernel
  obtain ⟨w, hw, hlast⟩ := (Option.any_eq_true _ _).mp hplay
  obtain ⟨hlast, hthird⟩ := Bool.and_eq_true _ _ ▸ hlast
  obtain ⟨c', hc', hpc⟩ := (Option.any_eq_true _ _).mp hlast
  obtain ⟨c₂, hc₂, hleft⟩ := (Option.any_eq_true _ _).mp hthird
  obtain ⟨hreturned, hnone⟩ := of_decide_eq_true hleft
  obtain ⟨s, hs⟩ := Option.isSome_iff_exists.mp hown
  obtain ⟨-, hsettled⟩ := runs_of_play_guarded hs
  obtain ⟨c, us, hc, hprefix, hanswers, hassertion, hall⟩ :=
    every_client_served (by simp) plainArchive_lawful (runs_of_play hw) 1 _ rfl
  rw [hc'] at hc
  cases hc
  exact ⟨w, c', us, runs_of_play hw, hc', hprefix, hanswers, hassertion,
    hall rfl (of_decide_eq_true hpc) hsettled, c₂, hc₂, hreturned, hnone⟩

end Calculator

end TCPClientServer.System
