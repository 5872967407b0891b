import TCPClientServer.System.Network

/-!
# The connections of the client

Each session serves one connection, and on the connection in use the client and the session are in step.

* `Owned` : the sessions of the connections have been accepted, and are different; `owned_steps`;
* `Linked` : every byte on the newest connection is accounted for; `Tied` is the same in full;
* `tied_put`, `tied_read`, `tied_deliver`, `tied_accepted`, `tied_completed`, `tied_server` : what the client, the
  network and the server do to it.
-/

namespace TCPClientServer.System
open TCPClientServer.Basis TCPClientServer.Io TCPClientServer.Server TCPClientServer.Client TCPClientServer.Calculator

section Connections
variable {channels : List Channel} {k j : Nat} {ch ch' ch₀ : Channel}

theorem newest_eq_some_iff : newest channels = some (j, ch) ↔ channels[j]? = some ch ∧ j + 1 = channels.length := by
  rw [newest, Option.map_eq_some_iff]
  constructor
  · rintro ⟨ch', hlast, heq⟩
    obtain ⟨rfl, rfl⟩ := Prod.mk.inj heq
    obtain ⟨init, rfl⟩ := List.getLast?_eq_some_iff.mp hlast
    simp
  · rintro ⟨hch, hlen⟩
    refine ⟨ch, ?_, by rw [← hlen, Nat.add_sub_cancel]⟩
    rw [List.getLast?_eq_getElem?, ← hlen, Nat.add_sub_cancel, hch]

theorem newest_append (channels : List Channel) (ch : Channel) :
    newest (channels ++ [ch]) = some (channels.length, ch) := by
  simp [newest]

theorem getElem?_set_channel (hch : channels[k]? = some ch) (ch' : Channel) (j : Nat) :
    (channels.set k ch')[j]? = if j = k then some ch' else channels[j]? := by
  obtain ⟨hk, -⟩ := List.getElem?_eq_some_iff.mp hch
  rw [List.getElem?_set]
  by_cases h : j = k
  · subst h
    simp [hk]
  · rw [if_neg (Ne.symm h), if_neg h]

theorem newest_set (hnewest : newest channels = some (j, ch₀)) (hch : channels[k]? = some ch) (ch' : Channel) :
    newest (channels.set k ch') = some (j, if j = k then ch' else ch₀) := by
  obtain ⟨hj, hlen⟩ := newest_eq_some_iff.mp hnewest
  refine newest_eq_some_iff.mpr ⟨?_, by rw [List.length_set, hlen]⟩
  rw [getElem?_set_channel hch]
  split
  · rfl
  · exact hj

end Connections

/-! ## The sessions of the connections -/

section Owned
variable {f : Filter} {cd : Codec ClientData} {cr : Codec (Response ServerData)} {secured : Bool}
  {server server' : AsyncServer ClientData ServerData} {channels : List Channel} {k i : Nat} {ch ch' : Channel}
  {e : Event ClientData ServerData}

/-- The sessions of the connections have been accepted, and no two connections have the same. -/
structure Owned (server : AsyncServer ClientData ServerData) (channels : List Channel) : Prop where
  wellFormed : server.WellFormed
  session : ∀ (k : Nat) (ch : Channel) (i : Nat), channels[k]? = some ch → ch.session = some i →
    ∃ t, server.sessions[i]? = some t ∧ t.pending ≠ .accept
  unique : ∀ (k k' : Nat) (ch ch' : Channel) (i : Nat), channels[k]? = some ch → channels[k']? = some ch' →
    ch.session = some i → ch'.session = some i → k = k'

theorem owned_set (h : Owned server channels) (hch : channels[k]? = some ch) (hsession : ch'.session = ch.session) :
    Owned server (channels.set k ch') := by
  have hset : ∀ (j : Nat) (ch₁ : Channel), (channels.set k ch')[j]? = some ch₁ →
      ∃ ch₂, channels[j]? = some ch₂ ∧ ch₂.session = ch₁.session := by
    intro j ch₁ h₁
    rw [getElem?_set_channel hch] at h₁
    split at h₁
    · rename_i hj
      cases h₁
      exact ⟨ch, hj ▸ hch, hsession.symm⟩
    · exact ⟨ch₁, h₁, rfl⟩
  refine ⟨h.wellFormed, fun j ch₁ i h₁ hi => ?_, fun j j' ch₁ ch₁' i h₁ h₁' hi hi' => ?_⟩
  · obtain ⟨ch₂, h₂, heq⟩ := hset j ch₁ h₁
    exact h.session j ch₂ i h₂ (heq.trans hi)
  · obtain ⟨ch₂, h₂, heq⟩ := hset j ch₁ h₁
    obtain ⟨ch₂', h₂', heq'⟩ := hset j' ch₁' h₁'
    exact h.unique j j' ch₂ ch₂' i h₂ h₂' (heq.trans hi) (heq'.trans hi')

theorem owned_opened (h : Owned server channels) : Owned server (channels ++ [.empty]) := by
  have hold : ∀ (j : Nat) (ch₁ : Channel) (i : Nat), (channels ++ [.empty])[j]? = some ch₁ → ch₁.session = some i →
      channels[j]? = some ch₁ := by
    intro j ch₁ i h₁ hi
    rw [List.getElem?_append] at h₁
    split at h₁
    · exact h₁
    · obtain rfl := List.mem_singleton.mp (List.mem_of_getElem? h₁)
      cases hi
  exact ⟨h.wellFormed, fun j ch₁ i h₁ hi => h.session j ch₁ i (hold j ch₁ i h₁ hi) hi,
    fun j j' ch₁ ch₁' i h₁ h₁' hi hi' => h.unique j j' ch₁ ch₁' i (hold j ch₁ i h₁ hi) (hold j' ch₁' i h₁' hi') hi hi'⟩

theorem owned_server (h : Owned server channels) (hstep : AsyncServer.Step f cd cr serverAction secured server e server') :
    Owned server' channels := by
  refine ⟨AsyncServer.wellFormed_step h.wellFormed hstep, fun k ch i hch hi => ?_, h.unique⟩
  obtain ⟨t, ht, hp⟩ := h.session k ch i hch hi
  rcases AsyncServer.session_of_step ht hp hstep with ⟨c, t', -, hcomplete, ht'⟩ | ⟨-, ht'⟩
  · exact ⟨t', ht', (Session.handled_complete hp hcomplete).accept⟩
  · exact ⟨t, ht', hp⟩

theorem session_of_accepted {cdata : ClientData} {response : Response ServerData} (hwf : server.WellFormed)
    (hacc : server.Accepting i)
    (hstep : AsyncServer.Step f cd cr serverAction secured server (.accepted i none cdata response) server') :
    ∃ t, server'.sessions[i]? = some t ∧ t.requests = [] ∧ t.replies = [] ∧
      (t.pending = .handshake ∨ t.pending = .readHeader) := by
  obtain ⟨t, ht, hp⟩ := hacc
  obtain ⟨hreq, hreplies⟩ := hwf.unused i t ht hp
  have hi := (List.getElem?_eq_some_iff.mp ht).1
  rw [AsyncServer.Step, AsyncServer.step_accepted ht hp] at hstep
  cases hstep
  refine ⟨{ t with pending := AsyncServer.acceptedPending secured none }, ?_, hreq, hreplies, ?_⟩
  · rw [AsyncServer.getElem?_doAccept, if_neg (by simpa using hi.ne)]
    rw [AsyncServer.getElem?_set_some ht, if_pos rfl]
  · cases secured with
    | true => exact .inl rfl
    | false => exact .inr rfl

theorem owned_accepted {cdata : ClientData} {response : Response ServerData} (h : Owned server channels)
    (hch : channels[k]? = some ch) (hacc : server.Accepting i)
    (hstep : AsyncServer.Step f cd cr serverAction secured server (.accepted i none cdata response) server') :
    Owned server' (channels.set k (ch.accept i)) := by
  have hserver := owned_server h hstep
  obtain ⟨t, ht, -, -, hp⟩ := session_of_accepted h.wellFormed hacc hstep
  -- no connection has a session that accepts
  have hnew : ∀ (j : Nat) (ch₁ : Channel), channels[j]? = some ch₁ → ch₁.session ≠ some i := by
    intro j ch₁ h₁ hi
    obtain ⟨s, hs, hne⟩ := h.session j ch₁ i h₁ hi
    obtain ⟨s', hs', hp'⟩ := hacc
    rw [hs] at hs'
    cases hs'
    exact hne hp'
  refine ⟨hserver.wellFormed, fun j ch₁ i' h₁ hi => ?_, fun j j' ch₁ ch₁' i' h₁ h₁' hi hi' => ?_⟩
  · rw [getElem?_set_channel hch] at h₁
    split at h₁
    · cases h₁
      cases hi
      exact ⟨t, ht, by rcases hp with hp | hp <;> simp [hp]⟩
    · exact hserver.session j ch₁ i' h₁ hi
  · rw [getElem?_set_channel hch] at h₁ h₁'
    split at h₁ <;> split at h₁'
    · omega
    · cases h₁
      cases hi
      exact absurd hi' (hnew j' ch₁' h₁')
    · cases h₁'
      cases hi'
      exact absurd hi (hnew j ch₁ h₁)
    · exact h.unique j j' ch₁ ch₁' i' h₁ h₁' hi hi'

/-- **Every step keeps the connections and their sessions apart.** -/
theorem owned_steps {clientId : Bytes} {keepAlive : Bool} {s s' : State} {l : Label} (h : Owned s.server s.channels)
    (hsteps : State.Steps f cd cr clientId keepAlive secured s l s') : Owned s'.server s'.channels := by
  cases hsteps with
  | thread a hlocal threads hthreads => exact h
  | opened threads hthreads => exact owned_opened h
  | written k fresh d hpc hawaiting j ch hnewest hec =>
    exact owned_set h (newest_eq_some_iff.mp hnewest).1 rfl
  | notWritten k fresh d hpc hawaiting j ch hnewest e hec threads hthreads =>
    exact owned_set h (newest_eq_some_iff.mp hnewest).1 rfl
  | read fault fresh hawaiting j ch hnewest r hread threads hthreads =>
    exact owned_set h (newest_eq_some_iff.mp hnewest).1 rfl
  | readThrows fault fresh hawaiting j ch hnewest e hread threads hthreads => exact h
  | toServer k n ch hch => exact owned_set h hch rfl
  | toClient k n ch hch => exact owned_set h hch rfl
  | accepted k i cdata response ch hch hsession hacc server hserver => exact owned_accepted h hch hacc hserver
  | completed k i c ch hch hsession hpossible harrived server hserver =>
    exact owned_set (owned_server h hserver) hch rfl
  | other e hown hpossible server hserver => exact owned_server h hserver
  | crashed l => exact h

end Owned

/-! ## The connection in use -/

section Linked
variable (f : Filter) (cd : Codec ClientData) (cr : Codec (Response ServerData))

/-- The session on the other side of a connection; one that has done nothing, as long as it has not been
accepted. -/
def Partner (server : AsyncServer ClientData ServerData) (ch : Channel) (t : Session ClientData ServerData) : Prop :=
  match ch.session with
  | some i => server.sessions[i]? = some t
  | none => t.requests = [] ∧ t.replies = [] ∧ t.pending = .readHeader

/-- The newest connection carries the exchanges so far, with this request awaiting its answer. -/
def Linked (server : AsyncServer ClientData ServerData) (channels : List Channel) (awaited : Option ClientData) : Prop :=
  ∃ j ch t done bytes, newest channels = some (j, ch) ∧ Partner server ch t ∧
    Carries f cd cr serverAction done awaited bytes ch t

/-- The same of the connection with its number, the exchanges done, the bytes received and the session. -/
def Tied (server : AsyncServer ClientData ServerData) (channels : List Channel) (j : Nat) (done : List ClientData)
    (awaited : Option ClientData) (bytes : Bytes) (t : Session ClientData ServerData) : Prop :=
  ∃ ch, newest channels = some (j, ch) ∧ Partner server ch t ∧ Carries f cd cr serverAction done awaited bytes ch t

variable {f cd cr} {secured : Bool} {server server' : AsyncServer ClientData ServerData} {channels : List Channel}
  {k i j : Nat} {ch ch' : Channel} {e : Event ClientData ServerData} {done : List ClientData}
  {awaited : Option ClientData} {bytes : Bytes} {t : Session ClientData ServerData} {d : ClientData}

theorem linked_iff : Linked f cd cr server channels awaited ↔
    ∃ j t done bytes, Tied f cd cr server channels j done awaited bytes t := by
  constructor
  · rintro ⟨j, ch, t, done, bytes, hnewest, hpartner, h⟩
    exact ⟨j, t, done, bytes, ch, hnewest, hpartner, h⟩
  · rintro ⟨j, t, done, bytes, ch, hnewest, hpartner, h⟩
    exact ⟨j, ch, t, done, bytes, hnewest, hpartner, h⟩

variable (ch) in
theorem partner_of_session (h : ch'.session = ch.session) (hpartner : Partner server ch t) : Partner server ch' t := by
  unfold Partner at hpartner ⊢
  rwa [h]

theorem partner_some (h : ch.session = some i) : Partner server ch t ↔ server.sessions[i]? = some t := by
  rw [Partner, h]

variable (f cd cr) in
theorem tied_opened (server : AsyncServer ClientData ServerData) (channels : List Channel) :
    ∃ t, Tied f cd cr server (channels ++ [.empty]) channels.length [] none [] t ∧ t.pending = .readHeader := by
  let t : Session ClientData ServerData :=
    { Session.create 0 blankRequest blankResponse with pending := .readHeader }
  exact ⟨t, ⟨_, newest_append channels .empty, ⟨rfl, rfl, rfl⟩, carries_new rfl rfl rfl⟩, rfl⟩

theorem tied_deliver (h : Tied f cd cr server channels j done awaited bytes t) (hch : channels[k]? = some ch)
    (hsession : ch'.session = ch.session) (hcarries : Carries f cd cr serverAction done awaited bytes ch t →
      Carries f cd cr serverAction done awaited bytes ch' t) :
    Tied f cd cr server (channels.set k ch') j done awaited bytes t := by
  obtain ⟨ch₀, hnewest, hpartner, h⟩ := h
  refine ⟨_, newest_set hnewest hch ch', ?_⟩
  split
  · rename_i hj
    have hj₀ := (newest_eq_some_iff.mp hnewest).1
    rw [hj, hch] at hj₀
    cases hj₀
    exact ⟨partner_of_session ch hsession hpartner, hcarries h⟩
  · exact ⟨hpartner, h⟩

theorem tied_put {j₀ : Nat} (h : Tied f cd cr server channels j done none bytes t)
    (hnewest : newest channels = some (j₀, ch)) (haccepted : Accepted f cd d) (hsound : Sound f cd d) :
    Tied f cd cr server (channels.set j₀ (ch.put (frame f cd d))) j done (some d) bytes t := by
  obtain ⟨ch₀, hnewest', hpartner, h⟩ := h
  rw [hnewest] at hnewest'
  cases hnewest'
  have hset := newest_set hnewest (newest_eq_some_iff.mp hnewest).1 (ch.put (frame f cd d))
  rw [if_pos rfl] at hset
  exact ⟨_, hset, partner_of_session ch rfl hpartner, carries_put h haccepted hsound⟩

theorem tied_read {conn : Connection} {fresh : Response ServerData} {fault : Fault}
    {r : Connection.Read (Response ServerData)} {j₀ : Nat}
    (h : Tied f cd cr server channels j done (some d) bytes t) (hnewest : newest channels = some (j₀, ch))
    (hsound : ∀ r, Replied f cr serverAction d r → Sound f cr r)
    (hread : conn.read f cr fresh ⟨[ch.atClient], fault⟩ = .ok r) (hec : r.ec = none) :
    Replied f cr serverAction d r.value ∧
      Tied f cd cr server (channels.set j₀ (ch.leave r.source.bytes)) j (done ++ [d]) none bytes t := by
  obtain ⟨ch₀, hnewest', hpartner, h⟩ := h
  rw [hnewest] at hnewest'
  cases hnewest'
  have hset := newest_set hnewest (newest_eq_some_iff.mp hnewest).1 (ch.leave r.source.bytes)
  rw [if_pos rfl] at hset
  obtain ⟨hreplied, hcarries⟩ := carries_read h hsound hread hec
  exact ⟨hreplied, _, hset, partner_of_session ch rfl hpartner, hcarries⟩

/-- A step of the server that is not for the session of this connection. -/
theorem tied_server (h : Tied f cd cr server channels j done awaited bytes t)
    (hstep : AsyncServer.Step f cd cr serverAction secured server e server')
    (hother : ∀ j ch i c, newest channels = some (j, ch) → ch.session = some i → e ≠ .completed i c) :
    Tied f cd cr server' channels j done awaited bytes t := by
  obtain ⟨ch, hnewest, hpartner, h⟩ := h
  refine ⟨ch, hnewest, ?_, h⟩
  cases hsession : ch.session with
  | none =>
    rw [Partner, hsession] at hpartner ⊢
    exact hpartner
  | some i =>
    rw [partner_some hsession] at hpartner ⊢
    rcases AsyncServer.session_of_step hpartner h.accepted hstep with ⟨c, t', heq, -, -⟩ | ⟨-, hsame⟩
    · exact absurd heq (hother j ch i c hnewest hsession)
    · exact hsame

theorem tied_accepted {cdata : ClientData} {response : Response ServerData}
    (h : Tied f cd cr server channels j done awaited bytes t) (howned : Owned server channels)
    (hch : channels[k]? = some ch) (hsession : ch.session = none) (hacc : server.Accepting i)
    (hstep : AsyncServer.Step f cd cr serverAction secured server (.accepted i none cdata response) server') :
    ∃ t', Tied f cd cr server' (channels.set k (ch.accept i)) j done awaited bytes t' ∧
      (t' = t ∨ t'.pending = .handshake ∨ t'.pending = .readHeader) := by
  obtain ⟨ch₀, hnewest, hpartner, hcarries⟩ := tied_server h hstep fun _ _ _ _ _ _ => nofun
  by_cases hj : j = k
  · subst hj
    have hj₀ := (newest_eq_some_iff.mp hnewest).1
    rw [hch] at hj₀
    cases hj₀
    rw [Partner, hsession] at hpartner
    obtain ⟨hreq, hreplies, hp⟩ := hpartner
    obtain ⟨t', ht', hreq', hreplies', hp'⟩ := session_of_accepted howned.wellFormed hacc hstep
    refine ⟨t', ⟨_, newest_set hnewest hch _, ?_⟩, .inr hp'⟩
    rw [if_pos rfl]
    refine ⟨(partner_some rfl).mpr ht', carries_accept hcarries hreq hreplies hp hreq' hreplies' ?_ ?_ ?_ i⟩
    all_goals rcases hp' with hp' | hp' <;> simp [hp']
  · have hset := newest_set hnewest hch (ch.accept i)
    rw [if_neg hj] at hset
    exact ⟨t, ⟨ch₀, hset, hpartner, hcarries⟩, .inl rfl⟩

theorem tied_completed {c : Completion} (h : Tied f cd cr server channels j done awaited bytes t)
    (howned : Owned server channels) (hch : channels[k]? = some ch) (hsession : ch.session = some i)
    (hpossible : server.Possible (.completed i c)) (harrived : c.received <+: ch.atServer)
    (hstep : AsyncServer.Step f cd cr serverAction secured server (.completed i c) server') :
    (j = k ∧ t.pending.Fits c ∧
      bytes ++ c.received <+: (done ++ awaited.toList).flatMap (frame f cd) ∧
      ∃ t', t.complete f cd cr serverAction c = .ok t' ∧ Tied f cd cr server'
        (channels.set k (ch.serve c.received (State.written server' i))) j done awaited (bytes ++ c.received) t') ∨
    (j ≠ k ∧ Tied f cd cr server' (channels.set k (ch.serve c.received (State.written server' i))) j done awaited
      bytes t) := by
  obtain ⟨ch₀, hnewest, hpartner, hcarries⟩ := h
  have hj₀ := (newest_eq_some_iff.mp hnewest).1
  by_cases hj : j = k
  · left
    subst hj
    rw [hch] at hj₀
    cases hj₀
    rw [partner_some hsession] at hpartner
    obtain ⟨s, hs, hp, -, hfits⟩ := hpossible
    rw [hpartner] at hs
    cases hs
    rcases AsyncServer.session_of_step hpartner hp hstep with ⟨c', t', heq, ht, hs'⟩ | ⟨hne, -⟩
    swap
    · exact absurd rfl (hne c)
    cases heq
    have hwritten : State.written server' i = output t' := by rw [State.written, hs']; rfl
    have hset := newest_set hnewest hch (ch.serve c.received (State.written server' i))
    rw [if_pos rfl] at hset
    refine ⟨rfl, hfits, hcarries.starts harrived, t', ht, _, hset, (partner_some hsession).mpr hs', ?_⟩
    rw [hwritten]
    exact carries_complete hcarries hfits harrived ht
  · right
    obtain ⟨ch₁, hnewest', hpartner', hcarries'⟩ := tied_server ⟨ch₀, hnewest, hpartner, hcarries⟩ hstep
      fun j' ch₁ i' c' hnewest' hsession' heq => by
        rw [hnewest] at hnewest'
        cases hnewest'
        cases heq
        exact hj (howned.unique j k ch₀ ch i hj₀ hch hsession' hsession)
    rw [hnewest] at hnewest'
    cases hnewest'
    have hset := newest_set hnewest hch (ch.serve c.received (State.written server' i))
    rw [if_neg hj] at hset
    exact ⟨hj, ch₀, hset, hpartner', hcarries'⟩

/-! ### Whatever has been exchanged -/

theorem linked_opened (server : AsyncServer ClientData ServerData) (channels : List Channel) :
    Linked f cd cr server (channels ++ [.empty]) none := by
  obtain ⟨t, h, -⟩ := tied_opened f cd cr server channels
  exact linked_iff.mpr ⟨_, t, _, _, h⟩

theorem linked_deliver (h : Linked f cd cr server channels awaited) (hch : channels[k]? = some ch)
    (hsession : ch'.session = ch.session)
    (hcarries : ∀ done bytes t, Carries f cd cr serverAction done awaited bytes ch t →
      Carries f cd cr serverAction done awaited bytes ch' t) : Linked f cd cr server (channels.set k ch') awaited := by
  obtain ⟨j, t, done, bytes, h⟩ := linked_iff.mp h
  exact linked_iff.mpr ⟨j, t, done, bytes, tied_deliver h hch hsession (hcarries done bytes t)⟩

theorem linked_put (h : Linked f cd cr server channels none) (hnewest : newest channels = some (j, ch))
    (haccepted : Accepted f cd d) (hsound : Sound f cd d) :
    Linked f cd cr server (channels.set j (ch.put (frame f cd d))) (some d) := by
  obtain ⟨j₀, t, done, bytes, h⟩ := linked_iff.mp h
  exact linked_iff.mpr ⟨j₀, t, done, bytes, tied_put h hnewest haccepted hsound⟩

theorem linked_read {conn : Connection} {fresh : Response ServerData} {fault : Fault}
    {r : Connection.Read (Response ServerData)} (h : Linked f cd cr server channels (some d))
    (hnewest : newest channels = some (j, ch)) (hsound : ∀ r, Replied f cr serverAction d r → Sound f cr r)
    (hread : conn.read f cr fresh ⟨[ch.atClient], fault⟩ = .ok r) (hec : r.ec = none) :
    Replied f cr serverAction d r.value ∧ Linked f cd cr server (channels.set j (ch.leave r.source.bytes)) none := by
  obtain ⟨j₀, t, done, bytes, h⟩ := linked_iff.mp h
  obtain ⟨hreplied, htied⟩ := tied_read h hnewest hsound hread hec
  exact ⟨hreplied, linked_iff.mpr ⟨j₀, t, done ++ [d], bytes, htied⟩⟩

theorem linked_server (h : Linked f cd cr server channels awaited)
    (hstep : AsyncServer.Step f cd cr serverAction secured server e server')
    (hother : ∀ j ch i c, newest channels = some (j, ch) → ch.session = some i → e ≠ .completed i c) :
    Linked f cd cr server' channels awaited := by
  obtain ⟨j, t, done, bytes, h⟩ := linked_iff.mp h
  exact linked_iff.mpr ⟨j, t, done, bytes, tied_server h hstep hother⟩

theorem linked_accepted {cdata : ClientData} {response : Response ServerData}
    (h : Linked f cd cr server channels awaited) (howned : Owned server channels) (hch : channels[k]? = some ch)
    (hsession : ch.session = none) (hacc : server.Accepting i)
    (hstep : AsyncServer.Step f cd cr serverAction secured server (.accepted i none cdata response) server') :
    Linked f cd cr server' (channels.set k (ch.accept i)) awaited := by
  obtain ⟨j, t, done, bytes, h⟩ := linked_iff.mp h
  obtain ⟨t', htied, -⟩ := tied_accepted h howned hch hsession hacc hstep
  exact linked_iff.mpr ⟨j, t', done, bytes, htied⟩

theorem linked_completed {c : Completion} (h : Linked f cd cr server channels awaited) (howned : Owned server channels)
    (hch : channels[k]? = some ch) (hsession : ch.session = some i) (hpossible : server.Possible (.completed i c))
    (harrived : c.received <+: ch.atServer)
    (hstep : AsyncServer.Step f cd cr serverAction secured server (.completed i c) server') :
    Linked f cd cr server' (channels.set k (ch.serve c.received (State.written server' i))) awaited := by
  obtain ⟨j, t, done, bytes, h⟩ := linked_iff.mp h
  rcases tied_completed h howned hch hsession hpossible harrived hstep with ⟨-, -, -, t', -, htied⟩ | ⟨-, htied⟩
  · exact linked_iff.mpr ⟨j, t', done, _, htied⟩
  · exact linked_iff.mpr ⟨j, t, done, bytes, htied⟩

end Linked

end TCPClientServer.System
