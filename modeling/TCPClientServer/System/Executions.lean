import TCPClientServer.System.Completion

/-!
# What the server carries out

A request whose connection breaks is sent again on the next one, and the server may have carried it out before. On
each connection it carries out the requests that are answered there and at most one more, the one that is sent again.

* `Served` : what has come of a connection, in use or given up; `served_complete`, `Carries.served`;
* `Share`, `Divided` : the data answered on each connection, and the one sent last; `divided_steps`;
* `carried_out_in_order`.
-/

namespace TCPClientServer.System
open TCPClientServer.Basis TCPClientServer.Io TCPClientServer.Server TCPClientServer.Client TCPClientServer.Calculator

section Served
variable {D A : Type} (f : Filter) (cd : Codec D) (cr : Codec (Response A)) (strategy : Int → D → Except Exn A)

/-- The client has put the frames of `done` on the connection and read the replies to them, and then put a part of
the frame of the next request. It may have given the connection up; the session goes on. -/
structure Served (done : List D) (next : Option D) (bytes : Bytes) (ch : Channel) (s : Session D A) : Prop where
  requests : ∀ d ∈ done ++ next.toList, Accepted f cd d ∧ Sound f cd d
  serves : s.Serves f cd cr strategy (done ++ next.toList) bytes
  accepted : s.pending ≠ .accept
  inbound : bytes ++ ch.atServer ++ ch.toServer <+: (done ++ next.toList).flatMap (frame f cd)
  answered : done.length ≤ s.replies.length

variable {f cd cr strategy} {done : List D} {next : Option D} {bytes : Bytes} {ch ch' : Channel} {s t : Session D A}
  {c : Completion} {d : D}

theorem Carries.served (h : Carries f cd cr strategy done next bytes ch s) :
    Served f cd cr strategy done next bytes ch s where
  requests := h.requests
  serves := h.serves
  accepted := h.accepted
  inbound := by rw [h.inbound]
  answered := h.answered

theorem Carries.served_put (h : Carries f cd cr strategy done none bytes ch s) (haccepted : Accepted f cd d)
    (hsound : Sound f cd d) {put : Bytes} (hput : put <+: frame f cd d) :
    Served f cd cr strategy done (some d) bytes (ch.put put) s := by
  have hwhole := (carries_put h haccepted hsound).served
  refine ⟨hwhole.requests, hwhole.serves, hwhole.accepted, List.IsPrefix.trans ?_ hwhole.inbound, hwhole.answered⟩
  obtain ⟨later, hlater⟩ := hput
  exact ⟨later, by simp [Channel.put, ← hlater]⟩

/-- What the server receives is what the client has put, wherever it is. -/
theorem Served.moved (h : Served f cd cr strategy done next bytes ch s)
    (hsame : ch'.atServer ++ ch'.toServer = ch.atServer ++ ch.toServer) :
    Served f cd cr strategy done next bytes ch' s where
  requests := h.requests
  serves := h.serves
  accepted := h.accepted
  inbound := by
    rw [List.append_assoc, hsame, ← List.append_assoc]
    exact h.inbound
  answered := h.answered

/-- One session that has done nothing is as good as another. -/
theorem served_accept (h : Served f cd cr strategy done next bytes ch s) (hreq : s.requests = [])
    (hreplies : s.replies = []) (hp : s.pending = .readHeader) (hreq' : t.requests = [])
    (hreplies' : t.replies = []) (hp' : t.pending = .handshake ∨ t.pending = .readHeader) (i : Nat) :
    Served f cd cr strategy done next bytes (ch.accept i) t where
  requests := h.requests
  serves := by
    obtain ⟨hbytes, -⟩ := h.serves.between (.inr (.inr (.inl hp)))
    rw [hreq] at hbytes
    refine .of_between (by simp [hreq']) (by rw [hbytes, hreq']) (by rw [hreq', hreplies']; exact .nil) ?_ ?_
    all_goals rcases hp' with hp' | hp' <;> simp [hp']
  accepted := by rcases hp' with hp' | hp' <;> simp [hp']
  inbound := h.inbound
  answered := by
    rw [hreplies', ← hreplies]
    exact h.answered

/-- **A handler of the session**, whether the client still uses the connection or not. -/
theorem served_complete (h : Served f cd cr strategy done next bytes ch s) (hfits : s.pending.Fits c)
    (harrived : c.received <+: ch.atServer) (ht : s.complete f cd cr strategy c = .ok t) (written : Bytes) :
    Served f cd cr strategy done next (bytes ++ c.received) (ch.serve c.received written) t := by
  have hhandled := Session.handled_complete h.accepted ht
  obtain ⟨rs, hreplies, -⟩ := output_of_handled hhandled
  obtain ⟨later, hlater⟩ := harrived
  have hstart : bytes ++ c.received <+: (done ++ next.toList).flatMap (frame f cd) :=
    List.IsPrefix.trans ⟨later ++ ch.toServer, by rw [← hlater]; simp⟩ h.inbound
  refine ⟨h.requests, Session.serves_complete h.requests h.serves hfits hstart ht, hhandled.accept, ?_, ?_⟩
  · have hinbound := h.inbound
    rw [← hlater] at hinbound
    simpa [Channel.serve, ← hlater] using hinbound
  · rw [hreplies, List.length_append]
    exact h.answered.trans (Nat.le_add_right _ _)

/-- **What the session has carried out**: what is answered, and perhaps the next request. -/
theorem Served.carried_out (h : Served f cd cr strategy done next bytes ch s) :
    s.requests = done ∨ ∃ d, next = some d ∧ s.requests = done ++ [d] := by
  have hlen : done.length ≤ s.requests.length := by
    have hanswered := h.answered
    rcases h.serves.replies with hreplies | ⟨before, d, hreq, hreplies⟩
    · rwa [hreplies.length_eq]
    · rw [hreq, List.length_append, hreplies.length_eq]
      omega
  have hrequests := h.serves.requests
  obtain ⟨more, hmore⟩ := List.prefix_of_prefix_length_le (List.prefix_append _ _) hrequests hlen
  rw [← hmore, List.prefix_append_right_inj] at hrequests
  rw [← hmore]
  cases next with
  | none =>
    left
    rw [List.prefix_nil.mp hrequests, List.append_nil]
  | some d =>
    rcases List.prefix_cons_iff.mp hrequests with hnil | ⟨rest, hrest, hnil⟩
    · left
      rw [hnil, List.append_nil]
    · right
      rw [List.prefix_nil.mp hnil] at hrest
      exact ⟨d, rfl, by rw [hrest]⟩

end Served

/-! ## One connection -/

/-- What the client has done on a connection: the data answered there, and the request sent last, if it is not one of
them. -/
structure Share where
  done : List ClientData
  next : Option ClientData

section ServedBy
variable (f : Filter) (cd : Codec ClientData) (cr : Codec (Response ServerData))

def ServedBy (server : AsyncServer ClientData ServerData) (ch : Channel) (share : Share) : Prop :=
  ∃ t bytes, Partner server ch t ∧ Served f cd cr serverAction share.done share.next bytes ch t

variable {f cd cr} {secured : Bool} {server server' : AsyncServer ClientData ServerData} {channels : List Channel}
  {k i j : Nat} {ch ch' : Channel} {e : Event ClientData ServerData} {share share' : Share}

variable (f cd cr server) in
theorem servedBy_opened : ServedBy f cd cr server .empty ⟨[], none⟩ := by
  obtain ⟨t, ⟨ch, hnewest, hpartner, hcarries⟩, -⟩ := tied_opened f cd cr server []
  cases hnewest
  exact ⟨t, [], hpartner, hcarries.served⟩

theorem ServedBy.moved (h : ServedBy f cd cr server ch share) (hsession : ch'.session = ch.session)
    (hsame : ch'.atServer ++ ch'.toServer = ch.atServer ++ ch.toServer) : ServedBy f cd cr server ch' share := by
  obtain ⟨t, bytes, hpartner, hserved⟩ := h
  exact ⟨t, bytes, partner_of_session ch hsession hpartner, hserved.moved hsame⟩

theorem servedBy_server (h : ServedBy f cd cr server ch share)
    (hstep : AsyncServer.Step f cd cr serverAction secured server e server')
    (hother : ∀ i c, ch.session = some i → e ≠ .completed i c) : ServedBy f cd cr server' ch share := by
  obtain ⟨t, bytes, hpartner, hserved⟩ := h
  refine ⟨t, bytes, ?_, hserved⟩
  cases hsession : ch.session with
  | none =>
    rw [Partner, hsession] at hpartner ⊢
    exact hpartner
  | some i =>
    rw [partner_some hsession] at hpartner ⊢
    rcases AsyncServer.session_of_step hpartner hserved.accepted hstep with ⟨c, t', heq, -, -⟩ | ⟨-, hsame⟩
    · exact absurd heq (hother i c hsession)
    · exact hsame

theorem servedBy_accepted {cdata : ClientData} {response : Response ServerData} (h : ServedBy f cd cr server ch share)
    (hsession : ch.session = none) (hwf : server.WellFormed) (hacc : server.Accepting i)
    (hstep : AsyncServer.Step f cd cr serverAction secured server (.accepted i none cdata response) server') :
    ServedBy f cd cr server' (ch.accept i) share := by
  obtain ⟨t, bytes, hpartner, hserved⟩ := h
  rw [Partner, hsession] at hpartner
  obtain ⟨hreq, hreplies, hp⟩ := hpartner
  obtain ⟨t', ht', hreq', hreplies', hp'⟩ := session_of_accepted hwf hacc hstep
  exact ⟨t', bytes, (partner_some rfl).mpr ht', served_accept hserved hreq hreplies hp hreq' hreplies' hp' i⟩

theorem servedBy_completed {c : Completion} (h : ServedBy f cd cr server ch share) (hsession : ch.session = some i)
    (hpossible : server.Possible (.completed i c)) (harrived : c.received <+: ch.atServer)
    (hstep : AsyncServer.Step f cd cr serverAction secured server (.completed i c) server') (written : Bytes) :
    ServedBy f cd cr server' (ch.serve c.received written) share := by
  obtain ⟨t, bytes, hpartner, hserved⟩ := h
  rw [partner_some hsession] at hpartner
  obtain ⟨s, hs, hp, -, hfits⟩ := hpossible
  rw [hpartner] at hs
  cases hs
  rcases AsyncServer.session_of_step hpartner hp hstep with ⟨c', t', heq, ht, hs'⟩ | ⟨hne, -⟩
  · cases heq
    exact ⟨t', _, (partner_some hsession).mpr hs', served_complete hserved hfits harrived ht written⟩
  · exact absurd rfl (hne c)

end ServedBy

/-! ## All connections -/

def answeredOn (shares : List Share) : List ClientData := shares.flatMap Share.done

section Divided
variable (f : Filter) (cd : Codec ClientData) (cr : Codec (Response ServerData))

/-- The data answered are divided among the connections in their order. What was sent last on a connection is the
datum that comes next, and the connection in use is in step. -/
structure Divided (s : State) (shares : List Share) : Prop where
  length : shares.length = s.channels.length
  answered : answeredOn shares = s.threads.client.answered.map Prod.fst
  pushed : ∀ (k : Nat) (share : Share), shares[k]? = some share →
    answeredOn (shares.take k) ++ share.done ++ share.next.toList <+: s.threads.client.pushed
  served : ∀ (k : Nat) (ch : Channel) (share : Share), s.channels[k]? = some ch → shares[k]? = some share →
    ServedBy f cd cr s.server ch share
  tied : s.threads.client.pc.Connected → ∃ before share bytes t, shares = before ++ [share] ∧ share.next = s.awaited ∧
    Tied f cd cr s.server s.channels before.length share.done share.next bytes t

variable {f cd cr} {clientId : Bytes} {keepAlive secured : Bool} {s s' : State} {l : Label} {shares before : List Share}
  {share share' : Share} {j k : Nat} {ch ch' : Channel}

theorem answeredOn_concat (before : List Share) (share : Share) :
    answeredOn (before ++ [share]) = answeredOn before ++ share.done := by simp [answeredOn]

theorem Divided.beside (h : Divided f cd cr s shares) (hlength : s'.channels.length = s.channels.length)
    (hanswered : s'.threads.client.answered = s.threads.client.answered)
    (hpushed : s.threads.client.pushed <+: s'.threads.client.pushed)
    (hserved : ∀ (k : Nat) (ch' : Channel) (share : Share), s'.channels[k]? = some ch' → shares[k]? = some share →
      ServedBy f cd cr s'.server ch' share)
    (htied : s'.threads.client.pc.Connected → s.threads.client.pc.Connected ∧ s'.awaited = s.awaited ∧
      ∀ j done awaited bytes t, Tied f cd cr s.server s.channels j done awaited bytes t →
        ∃ bytes' t', Tied f cd cr s'.server s'.channels j done awaited bytes' t') : Divided f cd cr s' shares where
  length := h.length.trans hlength.symm
  answered := by rw [h.answered, hanswered]
  pushed k share hk := (h.pushed k share hk).trans hpushed
  served := hserved
  tied hpc := by
    obtain ⟨hpc, hawaited, hkept⟩ := htied hpc
    obtain ⟨before, share, bytes, t, hsplit, hnext, ht⟩ := h.tied hpc
    obtain ⟨bytes', t', ht'⟩ := hkept _ _ _ _ _ ht
    exact ⟨before, share, bytes', t', hsplit, hnext.trans hawaited.symm, ht'⟩

theorem Divided.beside_threads (h : Divided f cd cr s shares) (hthreads : s'.threads = s.threads)
    (hawaiting : s'.awaiting = s.awaiting) (hlength : s'.channels.length = s.channels.length)
    (hserved : ∀ (k : Nat) (ch' : Channel) (share : Share), s'.channels[k]? = some ch' → shares[k]? = some share →
      ServedBy f cd cr s'.server ch' share)
    (htied : ∀ j done awaited bytes t, Tied f cd cr s.server s.channels j done awaited bytes t →
      ∃ bytes' t', Tied f cd cr s'.server s'.channels j done awaited bytes' t') : Divided f cd cr s' shares := by
  refine h.beside hlength (by rw [hthreads]) (by rw [hthreads]) hserved fun hpc => ⟨by rwa [hthreads] at hpc, ?_, htied⟩
  rw [State.awaited, State.awaited, hthreads, hawaiting]

theorem Divided.last (share' : Share) (h : Divided f cd cr s (before ++ [share]))
    (hnewest : newest s.channels = some (j, ch))
    (hserver : s'.server = s.server) (hchannels : s'.channels = s.channels.set j ch')
    (hanswered : answeredOn before ++ share'.done = s'.threads.client.answered.map Prod.fst)
    (hpushed : s'.threads.client.pushed = s.threads.client.pushed)
    (hnext : answeredOn before ++ share'.done ++ share'.next.toList <+: s.threads.client.pushed)
    (hserved : ServedBy f cd cr s.server ch' share')
    (htied : s'.threads.client.pc.Connected → share'.next = s'.awaited ∧ ∃ bytes t,
      Tied f cd cr s.server (s.channels.set j ch') before.length share'.done share'.next bytes t) :
    Divided f cd cr s' (before ++ [share']) := by
  obtain ⟨hch, hj⟩ := newest_eq_some_iff.mp hnewest
  have hlength := h.length
  rw [List.length_append, List.length_singleton] at hlength
  have hplace : ∀ (k : Nat) (share₁ : Share), (before ++ [share'])[k]? = some share₁ →
      k = before.length ∧ share₁ = share' ∨ k < before.length ∧ (before ++ [share])[k]? = some share₁ := by
    intro k share₁ hk
    rcases lt_trichotomy k before.length with hlt | rfl | hgt
    · rw [List.getElem?_append_left hlt] at hk ⊢
      exact .inr ⟨hlt, hk⟩
    · rw [List.getElem?_concat_length] at hk
      exact .inl ⟨rfl, (Option.some.inj hk).symm⟩
    · rw [List.getElem?_eq_none (by simp; omega)] at hk
      cases hk
  constructor
  · rw [hchannels, List.length_set, List.length_append, List.length_singleton, hlength]
  · rw [answeredOn_concat, hanswered]
  · intro k share₁ hk
    rw [hpushed]
    rcases hplace k share₁ hk with ⟨rfl, rfl⟩ | ⟨hlt, hk'⟩
    · rwa [List.take_left]
    · have hold := h.pushed k share₁ hk'
      rwa [List.take_append_of_le_length hlt.le] at hold ⊢
  · intro k ch₁ share₁ hch₁ hk
    rw [hchannels, getElem?_set_channel hch] at hch₁
    rw [hserver]
    rcases hplace k share₁ hk with ⟨rfl, rfl⟩ | ⟨hlt, hk'⟩
    · rw [if_pos (by omega)] at hch₁
      cases hch₁
      exact hserved
    · rw [if_neg (by omega)] at hch₁
      exact h.served k ch₁ share₁ hch₁ hk'
  · intro hpc
    obtain ⟨hawaited, bytes, t, ht⟩ := htied hpc
    rw [hserver, hchannels]
    exact ⟨before, share', bytes, t, rfl, hawaited, ht⟩

/-! ### The client -/

variable {d : ClientData} {bytes : Bytes} {t : Session ClientData ServerData}

theorem next_pushed (hd : s.threads.client.Disciplined) (hpc : s.threads.client.pc = .sending d) :
    s.threads.client.answered.map Prod.fst ++ [d] <+: s.threads.client.pushed := by
  obtain ⟨q, hq⟩ := List.head?_eq_some_iff.mp (hd.sending d hpc)
  rw [hd.pushed_queue (by simp [hpc]), hq]
  exact ⟨q, by simp⟩

theorem client_of_failed {threads : Threads} {result : Except Exn (ErrorCode × Response ServerData)}
    (h : s.threads.step clientId keepAlive (.client (.sent result)) = some threads)
    (hfailed : ∀ r, result ≠ .ok (none, r)) :
    threads.client.answered = s.threads.client.answered ∧ threads.client.pushed = s.threads.client.pushed ∧
      ¬ threads.client.pc.Connected := by
  obtain ⟨client, hnext, rfl⟩ := Option.map_eq_some_iff.mp h
  have hmoves := Thread.moves_of_next hnext
  have hpushed := Threads.pushed_of_moves hmoves
  cases hmoves with
  | sent d hpc result =>
    obtain ⟨hanswered, hconnected, -⟩ := Thread.onSent_failed ClientActions s.threads.client d hfailed
    exact ⟨hanswered, hpushed, hconnected⟩

theorem divided_written {k : Sink} {fresh : Response ServerData} (h : Divided f cd cr s shares) (hsound : Sound f cd d)
    (hd : s.threads.client.Disciplined) (hpc : s.threads.client.pc = .sending d) (hawaiting : s.awaiting = none)
    (hnewest : newest s.channels = some (j, ch)) (hec : (s.connection.write f cd d k).ec = none) :
    ∃ shares', Divided f cd cr (State.setChannel { s with
      connection := (s.connection.write f cd d k).connection, awaiting := some fresh } j
        (ch.put (s.connection.write f cd d k).put)) shares' := by
  have hwritten : Written f cd d k := by
    by_contra hnot
    obtain ⟨e, he⟩ := write_not_written s.connection hnot
    simp [hec] at he
  obtain ⟨before, share, bytes, t, rfl, hnext, ht⟩ := h.tied (by rw [hpc]; trivial)
  rw [hnext, awaited_of_none hawaiting] at ht
  rw [write_written hwritten]
  have hput := tied_put ht hnewest hwritten.1 hsound
  have hanswered := h.answered
  rw [answeredOn_concat] at hanswered
  refine ⟨_, h.last ⟨share.done, some d⟩ hnewest rfl rfl hanswered rfl ?_ ?_ fun _ => ⟨?_, bytes, t, hput⟩⟩
  · rw [hanswered]
    exact next_pushed hd hpc
  · obtain ⟨ch₁, hnewest₁, hpartner, hcarries⟩ := hput
    rw [newest_set hnewest (newest_eq_some_iff.mp hnewest).1, if_pos rfl] at hnewest₁
    cases hnewest₁
    exact ⟨t, bytes, hpartner, hcarries.served⟩
  · exact (awaited_of_some (s := State.setChannel { s with awaiting := some fresh } j ch) hpc rfl).symm

theorem divided_not_written {k : Sink} {threads : Threads} (h : Divided f cd cr s shares) (hsound : Sound f cd d)
    (hd : s.threads.client.Disciplined) (hpc : s.threads.client.pc = .sending d) (hawaiting : s.awaiting = none)
    (hnewest : newest s.channels = some (j, ch))
    (hfailed : threads.client.answered = s.threads.client.answered ∧
      threads.client.pushed = s.threads.client.pushed ∧ ¬ threads.client.pc.Connected) :
    ∃ shares', Divided f cd cr (State.setChannel { s with
      threads, connection := (s.connection.write f cd d k).connection } j
        (ch.put (s.connection.write f cd d k).put)) shares' := by
  obtain ⟨before, share, bytes, t, rfl, hnext, ht⟩ := h.tied (by rw [hpc]; trivial)
  rw [hnext, awaited_of_none hawaiting] at ht
  have hanswered := h.answered
  rw [answeredOn_concat] at hanswered
  obtain ⟨hanswered', hpushed, hpc'⟩ := hfailed
  obtain ⟨ch₀, hnewest₀, hpartner, hcarries⟩ := ht
  rw [hnewest] at hnewest₀
  cases hnewest₀
  by_cases haccepted : Accepted f cd d
  · have hput : (s.connection.write f cd d k).put <+: frame f cd d := by
      rw [Connection.write, Connection.stage_accepted haccepted]
      exact writeImpl_starts _ _
    refine ⟨_, h.last ⟨share.done, some d⟩ hnewest rfl rfl (by rw [hanswered]; exact congrArg _ hanswered'.symm)
      hpushed ?_ ?_ fun hpc => absurd hpc hpc'⟩
    · rw [hanswered]
      exact next_pushed hd hpc
    · exact ⟨t, bytes, partner_of_session ch rfl hpartner, hcarries.served_put haccepted hsound hput⟩
  · have hput : (s.connection.write f cd d k).put = [] := by
      rw [Connection.write, Connection.stage_refused haccepted]
    refine ⟨_, h.last ⟨share.done, none⟩ hnewest rfl rfl (by rw [hanswered]; exact congrArg _ hanswered'.symm)
      hpushed ?_ ?_ fun hpc => absurd hpc hpc'⟩
    · rw [hanswered, Option.toList_none, List.append_nil, hd.pushed]
      exact List.prefix_append _ _
    · rw [hput]
      exact ⟨t, bytes, partner_of_session ch rfl hpartner, hcarries.served.moved (by simp [Channel.put])⟩

theorem divided_read {fault : Fault} {fresh : Response ServerData} {r : Connection.Read (Response ServerData)}
    (h : Divided f cd cr s shares) (hagreed : Agreed f cd cr s) (hd : s.threads.client.Disciplined)
    (hsound : ∀ r, Replied f cr serverAction d r → Sound f cr r) (hpc : s.threads.client.pc = .sending d)
    (hawaiting : s.awaiting = some fresh) (hnewest : newest s.channels = some (j, ch))
    (hread : s.connection.read f cr fresh ⟨[ch.atClient], fault⟩ = .ok r) :
    ∃ shares', Divided f cd cr (State.setChannel { s with
      threads := { s.threads with client := s.threads.client.onSent ClientActions d (.ok (r.ec, r.value)) },
      awaiting := none, connection := r.connection } j (ch.leave r.source.bytes)) shares' := by
  obtain ⟨before, share, bytes, t, rfl, hnext, ht⟩ := h.tied (by rw [hpc]; trivial)
  rw [hnext, awaited_of_some hpc hawaiting] at ht
  have hanswered := h.answered
  rw [answeredOn_concat] at hanswered
  cases hec : r.ec with
  | some e =>
    obtain ⟨hsame, hconnected, -⟩ := Thread.onSent_failed ClientActions
      s.threads.client d (show ∀ r', Except.ok (some e, r.value) ≠ .ok (none, r') by simp)
    have hpushed := Threads.pushed_of_moves (show Thread.Moves ClientActions true true s.threads.client _ _ from
      .sent d hpc (.ok (some e, r.value)))
    refine ⟨_, h.last share hnewest rfl rfl (hanswered.trans (congrArg _ hsame.symm)) hpushed ?_ ?_
      fun hpc => absurd hpc hconnected⟩
    · simpa using h.pushed before.length share (by simp)
    · have hserved := h.served before.length ch share (by
        obtain ⟨hch, hj⟩ := newest_eq_some_iff.mp hnewest
        have hlength := h.length
        rw [List.length_append, List.length_singleton] at hlength
        rwa [show before.length = j by omega]) (by simp)
      exact hserved.moved rfl rfl
  | none =>
    obtain ⟨hreplied, hread⟩ := tied_read ht hnewest hsound hread hec
    obtain ⟨-, hsent⟩ := onSent_of_replied hagreed hpc hreplied
    rw [hsent]
    refine ⟨_, h.last ⟨share.done ++ [d], none⟩ hnewest rfl rfl ?_ rfl ?_ ?_ fun _ => ⟨rfl, bytes, t, hread⟩⟩
    · simp [State.setChannel, ← hanswered]
    · rw [Option.toList_none, List.append_nil, ← List.append_assoc, hanswered]
      exact next_pushed hd hpc
    · obtain ⟨ch₁, hnewest₁, hpartner, hcarries⟩ := hread
      rw [newest_set hnewest (newest_eq_some_iff.mp hnewest).1, if_pos rfl] at hnewest₁
      cases hnewest₁
      exact ⟨t, bytes, hpartner, hcarries.served⟩

theorem divided_opened {threads : Threads} (h : Divided f cd cr s shares) (hd : s.threads.client.Disciplined)
    (hanswered : threads.client.answered = s.threads.client.answered)
    (hpushed : threads.client.pushed = s.threads.client.pushed) (hawaiting : s.awaiting = none) :
    Divided f cd cr { s with threads, channels := s.channels ++ [.empty] } (shares ++ [⟨[], none⟩]) where
  length := by simp [h.length]
  answered := by
    rw [answeredOn_concat, List.append_nil, h.answered]
    exact congrArg _ hanswered.symm
  pushed k share hk := by
    rw [show ({ s with threads, channels := s.channels ++ [.empty] } : State).threads.client.pushed =
      s.threads.client.pushed from hpushed]
    rw [List.getElem?_append] at hk
    split at hk
    · rename_i hlt
      rw [List.take_append_of_le_length hlt.le]
      exact h.pushed k share hk
    · rename_i hge
      have hone := (List.getElem?_eq_some_iff.mp hk).1
      rw [List.length_singleton] at hone
      obtain rfl : k = shares.length := by omega
      obtain rfl := List.mem_singleton.mp (List.mem_of_getElem? hk)
      rw [List.append_nil, Option.toList_none, List.append_nil, List.take_left, h.answered, hd.pushed]
      exact List.prefix_append _ _
  served k ch share hch hk := by
    rw [List.getElem?_append] at hch hk
    rw [h.length] at hk
    split at hch
    · rename_i hlt
      rw [if_pos hlt] at hk
      exact h.served k ch share hch hk
    · rename_i hlt
      rw [if_neg hlt] at hk
      obtain rfl := List.mem_singleton.mp (List.mem_of_getElem? hch)
      obtain rfl := List.mem_singleton.mp (List.mem_of_getElem? hk)
      exact servedBy_opened f cd cr _
  tied _ := by
    obtain ⟨t, ht, -⟩ := tied_opened f cd cr s.server s.channels
    rw [← h.length] at ht
    exact ⟨shares, ⟨[], none⟩, [], t, rfl, (awaited_of_none (s := { s with threads, channels := _ }) hawaiting).symm, ht⟩

/-! ### All steps -/

theorem divided_local {a : Action} {threads : Threads} (h : Divided f cd cr s shares) (hinv : Invariant f cd cr s)
    (hlocal : isLocal a = true) (hthreads : s.threads.step clientId keepAlive a = some threads) :
    Divided f cd cr { s with threads } shares := by
  cases a with
  | scrape u =>
    have hscrapes := Threads.scrapes_iff.mp hthreads
    obtain ⟨hpc, -, hanswered⟩ := pc_of_scrapes hscrapes
    refine h.beside rfl hanswered ?_ h.served fun hconnected => ⟨by rwa [← hpc], ?_, fun j done awaited bytes t ht =>
      ⟨bytes, t, ht⟩⟩
    · rcases Threads.client_of_scrapes hscrapes with hclient | ⟨d, hclient⟩
      · rw [hclient]
      · rw [hclient]
        exact List.prefix_append _ _
    · rw [State.awaited, State.awaited, hpc]
  | client m =>
    obtain ⟨client, hnext, rfl⟩ := Option.map_eq_some_iff.mp hthreads
    have hmoves := Thread.moves_of_next hnext
    have hpushed : s.threads.client.pushed <+: client.pushed := by rw [Threads.pushed_of_moves hmoves]
    cases m with
    | sent result => cases hlocal
    | internal =>
      obtain ⟨hanswered, -, -⟩ := Thread.local_of_moves hmoves
      have hnone := hinv.agreed.awaiting_eq_none (Thread.not_sending_of_moves hmoves)
      refine h.beside rfl hanswered hpushed h.served fun hpc => ⟨Thread.connected_of_moves hmoves hpc, ?_,
        fun j done awaited bytes t ht => ⟨bytes, t, ht⟩⟩
      rw [awaited_of_none hnone, awaited_of_none (s := { s with threads := { s.threads with client } }) hnone]
    | opened result =>
      cases hmoves with
      | opened hpc => cases hlocal
      | notOpened hpc e => exact h.beside rfl rfl hpushed h.served False.elim

/-- **Every step divides the data among the connections.** -/
theorem divided_steps (hreq : ∀ d, ProperRequest d → Sound f cd d)
    (hresp : ∀ d r, Replied f cr serverAction d r → Sound f cr r) (h : Divided f cd cr s shares)
    (hinv : Invariant f cd cr s) (hsteps : State.Steps f cd cr clientId keepAlive secured s l s') :
    ∃ shares', Divided f cd cr s' shares' := by
  have hsound : ∀ d, s.threads.client.pc = .sending d → Sound f cd d := fun d hpc =>
    hreq d (hinv.scraped.pushed d (mem_pushed_of_sending hinv.disciplined hpc))
  -- a connection whose bytes are moved, and the others
  have hset : ∀ (k : Nat) (ch ch' : Channel), s.channels[k]? = some ch → ch'.session = ch.session →
      ch'.atServer ++ ch'.toServer = ch.atServer ++ ch.toServer → ∀ (j : Nat) (ch₁ : Channel) (share : Share),
        (s.channels.set k ch')[j]? = some ch₁ → shares[j]? = some share → ServedBy f cd cr s.server ch₁ share := by
    intro k ch ch' hch hsession hsame j ch₁ share hch₁ hj
    rw [getElem?_set_channel hch] at hch₁
    split at hch₁
    · rename_i hjk
      cases hch₁
      subst hjk
      exact (h.served j ch share hch hj).moved hsession hsame
    · exact h.served j ch₁ share hch₁ hj
  cases hsteps with
  | thread a hlocal threads hthreads => exact ⟨shares, divided_local h hinv hlocal hthreads⟩
  | opened threads hthreads =>
    obtain ⟨client, hnext, rfl⟩ := Option.map_eq_some_iff.mp hthreads
    have hmoves := Thread.moves_of_next hnext
    have hnone := hinv.agreed.awaiting_eq_none (by cases hmoves; simp_all)
    exact ⟨_, divided_opened h hinv.disciplined (by cases hmoves; rfl) (Threads.pushed_of_moves hmoves) hnone⟩
  | written k fresh d hpc hawaiting j ch hnewest hec =>
    exact divided_written h (hsound d hpc) hinv.disciplined hpc hawaiting hnewest hec
  | notWritten k fresh d hpc hawaiting j ch hnewest e hec threads hthreads =>
    exact divided_not_written h (hsound d hpc) hinv.disciplined hpc hawaiting hnewest
      (client_of_failed hthreads (by simp))
  | read fault fresh hawaiting j ch hnewest r hread threads hthreads =>
    obtain ⟨d, hpc, rfl⟩ := client_of_sent hthreads
    exact divided_read h hinv.agreed hinv.disciplined (hresp d) hpc hawaiting hnewest hread
  | readThrows fault fresh hawaiting j ch hnewest e hread threads hthreads =>
    obtain ⟨hanswered, hpushed, hconnected⟩ := client_of_failed hthreads (by simp)
    exact ⟨shares, h.beside rfl hanswered (by rw [hpushed]) h.served fun hpc => absurd hpc hconnected⟩
  | toServer k n ch hch =>
    refine ⟨shares, h.beside_threads rfl rfl (by simp [State.setChannel]) (hset k ch _ hch rfl ?_) ?_⟩
    · simp [Channel.deliverToServer]
    · exact fun j done awaited bytes t ht => ⟨bytes, t, tied_deliver ht hch rfl fun hc => carries_deliverToServer hc n⟩
  | toClient k n ch hch =>
    refine ⟨shares, h.beside_threads rfl rfl (by simp [State.setChannel]) (hset k ch _ hch rfl rfl) ?_⟩
    exact fun j done awaited bytes t ht => ⟨bytes, t, tied_deliver ht hch rfl fun hc => carries_deliverToClient hc n⟩
  | accepted k i cdata response ch hch hsession hacc server hserver =>
    refine ⟨shares, h.beside_threads rfl rfl (by simp [State.setChannel]) ?_ ?_⟩
    · intro j ch₁ share hch₁ hj
      rw [State.setChannel, getElem?_set_channel hch] at hch₁
      split at hch₁
      · rename_i hjk
        cases hch₁
        subst hjk
        exact servedBy_accepted (h.served j ch share hch hj) hsession hinv.owned.wellFormed hacc hserver
      · exact servedBy_server (h.served j ch₁ share hch₁ hj) hserver fun _ _ _ => by simp
    · intro j done awaited bytes t ht
      obtain ⟨t', ht', -⟩ := tied_accepted ht hinv.owned hch hsession hacc hserver
      exact ⟨bytes, t', ht'⟩
  | completed k i c ch hch hsession hpossible harrived server hserver =>
    refine ⟨shares, h.beside_threads rfl rfl (by simp [State.setChannel]) ?_ ?_⟩
    · intro j ch₁ share hch₁ hj
      rw [State.setChannel, getElem?_set_channel hch] at hch₁
      split at hch₁
      · rename_i hjk
        cases hch₁
        subst hjk
        exact servedBy_completed (h.served j ch share hch hj) hsession hpossible harrived hserver _
      · rename_i hjk
        refine servedBy_server (h.served j ch₁ share hch₁ hj) hserver fun i' c' hi' heq => ?_
        cases heq
        exact hjk (hinv.owned.unique j k ch₁ ch i hch₁ hch hi' hsession)
    · intro j done awaited bytes t ht
      rcases tied_completed ht hinv.owned hch hsession hpossible harrived hserver with ⟨-, -, -, t', -, ht'⟩ | ⟨-, ht'⟩
      · exact ⟨_, t', ht'⟩
      · exact ⟨bytes, t, ht'⟩
  | other e hown hpossible server hserver =>
    have hother : ∀ (ch : Channel) (i : Nat) (c : Completion), ch ∈ s.channels → ch.session = some i →
        e ≠ .completed i c := by
      rintro ch i c hch hsession rfl
      exact hown ⟨ch, hch, hsession⟩
    refine ⟨shares, h.beside_threads rfl rfl rfl ?_ ?_⟩
    · exact fun j ch share hch hj => servedBy_server (h.served j ch share hch hj) hserver fun i c =>
        hother ch i c (List.mem_of_getElem? hch)
    · exact fun j done awaited bytes t ht => ⟨bytes, t, tied_server ht hserver fun j ch i c hnewest =>
        hother ch i c (List.mem_of_getElem? (newest_eq_some_iff.mp hnewest).1)⟩
  | crashed l => exact ⟨shares, h.beside_threads rfl rfl rfl h.served fun j done awaited bytes t ht => ⟨bytes, t, ht⟩⟩

theorem divided_init (is : IStream) (padding : Padding) (connection : Connection) (cdata : ClientData)
    (response : Response ServerData) : Divided f cd cr (.init is padding connection cdata response) [] where
  length := rfl
  answered := rfl
  pushed := by simp
  served := by simp
  tied := False.elim

/-- **Every run divides the data among the connections.** -/
theorem divided_run {is : IStream} {padding : Padding} {connection : Connection} {cdata : ClientData}
    {response : Response ServerData} {ls : List Label} (hreq : ∀ d, ProperRequest d → Sound f cd d)
    (hresp : ∀ d r, Replied f cr serverAction d r → Sound f cr r)
    (hrun : Runs (StepOf (State.step f cd cr clientId keepAlive secured))
      (.init is padding connection cdata response) ls s) : ∃ shares, Divided f cd cr s shares := by
  refine (hrun.invariant (I := fun _ s => Invariant f cd cr s ∧ ∃ shares, Divided f cd cr s shares)
    ⟨invariant_init .., [], divided_init ..⟩ ?_).2
  rintro _ t l u - ⟨hinv, shares, h⟩ hstep
  have hsteps := State.steps_of_step hstep
  exact ⟨invariant_steps hreq hresp hinv hsteps, divided_steps hreq hresp h hinv hsteps⟩

theorem Divided.carried_out (h : Divided f cd cr s shares) {i : Nat} (hch : s.channels[k]? = some ch)
    (hsession : ch.session = some i) (ht : s.server.sessions[i]? = some t) : ∃ share again, shares[k]? = some share ∧
      t.requests = share.done ++ again ∧ again.length ≤ 1 ∧
      answeredOn (shares.take k) ++ t.requests <+: s.threads.client.pushed := by
  obtain ⟨share, hshare⟩ : ∃ share, shares[k]? = some share := by
    have hk := (List.getElem?_eq_some_iff.mp hch).1
    rw [← h.length] at hk
    exact ⟨_, List.getElem?_eq_getElem hk⟩
  have hnext := h.pushed k share hshare
  obtain ⟨t', bytes, hpartner, hserved⟩ := h.served k ch share hch hshare
  rw [partner_some hsession, ht] at hpartner
  cases hpartner
  rcases hserved.carried_out with hreq | ⟨d, hd, hreq⟩
  · refine ⟨share, [], hshare, by rw [hreq, List.append_nil], Nat.zero_le _, ?_⟩
    rw [hreq]
    exact (List.prefix_append _ _).trans hnext
  · refine ⟨share, [d], hshare, hreq, le_rfl, ?_⟩
    rw [hd, Option.toList_some, List.append_assoc] at hnext
    rwa [hreq]

end Divided

section Calculator
variable {z : Zlib} {compressed : Bool} {ar : TextArchive}

/-- **The server carries out the data of the input in order**, each once or more often and none left out: in every
run, the data answered are divided among the connections, and the session of a connection has carried out those
answered on it and at most one more, always those that come next in the input. -/
theorem carried_out_in_order (hz : compressed = true → z.Lawful) (har : ar.Lawful) {clientId t : Bytes}
    {keepAlive secured : Bool} {padding : Padding} {connection : Connection} {cdata : ClientData}
    {response : Response ServerData} {ls : List Label} {s : State}
    (hrun : Runs (StepOf (State.step (createFilter z compressed) (requestCodec ar) (responseCodec ar) clientId keepAlive
      secured)) (.init (.ofText t) padding connection cdata response) ls s) :
    ∃ us, ∃ parts : List (List ClientData), parts.length = s.channels.length ∧
      parts.flatten = s.threads.client.answered.map Prod.fst ∧
      ∀ (k i : Nat) (ch : Channel) (session : Session ClientData ServerData), s.channels[k]? = some ch →
        ch.session = some i → s.server.sessions[i]? = some session →
        ∃ part again, parts[k]? = some part ∧ session.requests = part ++ again ∧ again.length ≤ 1 ∧
          (parts.take k).flatten ++ session.requests <+: dataIn clientId us (readable t) := by
  obtain ⟨shares, h⟩ := divided_run (fun d hd => request_sound hz har hd.1 hd.2)
    (fun d r hr => sound_of_replied hz har hr) hrun
  obtain ⟨us, hprefix, -⟩ := (scraping_run hrun).pushed
  refine ⟨us, shares.map Share.done, by rw [List.length_map, h.length], h.answered,
    fun k i ch session hch hsession hs => ?_⟩
  obtain ⟨share, again, hshare, hreq, hagain, hnext⟩ := h.carried_out hch hsession hs
  refine ⟨share.done, again, by rw [List.getElem?_map, hshare]; rfl, hreq, hagain, ?_⟩
  rw [← List.map_take]
  exact hnext.trans hprefix

/-- The connection is reset when the session has carried the request out. It is carried out again by another one. -/
def repeatedSum : List Label :=
  List.replicate 5 (Label.thread (.scrape .zero)) ++ [Label.opened] ++
    List.replicate 2 (Label.thread (.client .internal)) ++
    [Label.written ⟨none, .eof⟩ blankResponse, .accepted 0 0 blankRequest blankResponse, .toServer 0 5000,
      .completed 0 0 ⟨sumFrame.take 8, none, 0⟩, .completed 0 0 ⟨sumFrame.drop 8, none, 3⟩, .read .connectionReset] ++
    List.replicate 2 (Label.thread (.client .internal)) ++ [Label.opened] ++
    List.replicate 2 (Label.thread (.client .internal)) ++
    [Label.written ⟨none, .eof⟩ blankResponse, .accepted 1 1 blankRequest blankResponse, .toServer 1 5000,
      .completed 1 1 ⟨sumFrame.take 8, none, 0⟩, .completed 1 1 ⟨sumFrame.drop 8, none, 5⟩, .toClient 1 5000, .read .eof]

theorem carried_out_in_order_repeated :
    ∃ s us, ∃ parts : List (List ClientData), Runs (StepOf (State.step (createFilter ⟨id, .ok⟩ false)
        (requestCodec plainArchive) (responseCodec plainArchive) [ch 'a'] false false))
          (.init (.ofText (sumLine ++ [newline])) (.replicate 0) .fresh blankRequest blankResponse) repeatedSum s ∧
      s.server.sessions.map (·.requests.length) = [1, 1, 0] ∧ s.threads.client.answered.length = 1 ∧
      parts.length = s.channels.length ∧ parts.flatten = s.threads.client.answered.map Prod.fst ∧
      ∀ (k i : Nat) (ch₁ : Channel) (session : Session ClientData ServerData), s.channels[k]? = some ch₁ →
        ch₁.session = some i → s.server.sessions[i]? = some session →
        ∃ part again, parts[k]? = some part ∧ session.requests = part ++ again ∧ again.length ≤ 1 ∧
          (parts.take k).flatten ++ session.requests <+: dataIn [ch 'a'] us (readable (sumLine ++ [newline])) := by
  have hplay : (play (State.step (createFilter ⟨id, .ok⟩ false) (requestCodec plainArchive)
      (responseCodec plainArchive) [ch 'a'] false false)
        (.init (.ofText (sumLine ++ [newline])) (.replicate 0) .fresh blankRequest blankResponse) repeatedSum).any
          (fun s => decide (s.server.sessions.map (·.requests.length) = [1, 1, 0] ∧
            s.threads.client.answered.length = 1)) = true := by
    decide +kernel
  obtain ⟨s, hs, hlast⟩ := (Option.any_eq_true _ _).mp hplay
  obtain ⟨hsessions, hone⟩ := of_decide_eq_true hlast
  obtain ⟨us, parts, hparts⟩ := carried_out_in_order (by simp) plainArchive_lawful (runs_of_play hs)
  exact ⟨s, us, parts, runs_of_play hs, hsessions, hone, hparts⟩

end Calculator

end TCPClientServer.System
