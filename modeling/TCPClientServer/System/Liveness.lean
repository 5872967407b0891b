import TCPClientServer.Basis.Measure
import TCPClientServer.System.Progress

/-!
# Every exchange ends

As long as nothing fails, an exchange comes to its end after a bounded number of the steps that take it further:
each of them takes something off the work that is left, and nothing else adds to it.

* `Session.Advances` : what a handler does that goes on; `advances_of_complete`;
* `stage`, `State.work` : the work that is left to a session, and to the exchange;
* `work_steps` : no step adds to it, and a productive one takes something off; `work_le` : how much it is at most;
* `productive_bounded`, `response_arrives`, `response_read` : what it comes to;
* `exchange_ends`.
-/

namespace TCPClientServer.System
open TCPClientServer.Basis TCPClientServer.Io TCPClientServer.Server TCPClientServer.Client TCPClientServer.Calculator

/-! ## A session -/

section Session
variable {D A : Type} {f : Filter} {cd : Codec D} {cr : Codec (Response A)} {strategy : Int → D → Except Exn A}
  {s t : Session D A} {c : Completion} {d : D} {done : List D} {bytes : Bytes} {ch : Channel}

/-- A session has gone on to its next operation: its first read, the read behind a write, the read of a body, or the
write of a reply. -/
inductive Advances (f : Filter) (cr : Codec (Response A)) (s t : Session D A) : Prop where
  | started (hp : s.pending = .handshake) (ht : t.pending = .readHeader) (hreplies : t.replies = s.replies)
  | written (put : Bytes) (hp : s.pending = .write put) (ht : t.pending = .readHeader) (hreplies : t.replies = s.replies)
  | header (b : Connection.BodyRead) (hp : s.pending = .readHeader) (ht : t.pending = .readBody b)
    (hreplies : t.replies = s.replies)
  | body (b : Connection.BodyRead) (hp : s.pending = .readBody b) (r : Response A)
    (ht : t.pending = .write (frame f cr r)) (haccepted : Accepted f cr r) (hreplies : t.replies = s.replies ++ [r])

theorem pending_of_onReceived_fault {e : Fault} {now : Int}
    (h : s.onReceived f cr strategy (some e) now = .ok t) : t.pending = .idle := by
  cases h
  rfl

theorem written_of_doReply (h : (s.doReply f cr).pending ≠ .idle) :
    (s.doReply f cr).pending = .write (frame f cr s.response) ∧ Accepted f cr s.response ∧
      (s.doReply f cr).replies = s.replies ++ [s.response] := by
  by_cases haccepted : Accepted f cr s.response
  · obtain ⟨connection, hreply⟩ := Session.doReply_accepted haccepted
    rw [hreply]
    exact ⟨rfl, haccepted, rfl⟩
  · obtain ⟨connection, hreply⟩ := Session.doReply_refused haccepted
    rw [hreply] at h
    exact absurd rfl h

/-- **A handler without an error goes on or ends the session.** -/
theorem advances_of_complete (h : s.complete f cd cr strategy c = .ok t) (hec : c.ec = none)
    (hp : s.pending ≠ .accept) (hidle : t.pending ≠ .idle) : Advances f cr s t := by
  cases hpending : s.pending with
  | accept => exact absurd hpending hp
  | idle =>
    rw [Session.complete_idle hpending] at h
    cases h
    exact absurd hpending hidle
  | handshake =>
    simp only [Session.complete, hpending, hec, Session.onInitialized, Session.doReceive, Except.ok.injEq] at h
    subst h
    exact .started hpending rfl rfl
  | write put =>
    simp only [Session.complete, hpending, hec, Session.onWritten, Session.doReceive, Except.ok.injEq] at h
    subst h
    exact .written put hpending rfl rfl
  | readHeader =>
    simp only [Session.complete, hpending, hec, Connection.handleReadHeader] at h
    obtain ⟨⟨connection, started⟩, hstarted, h⟩ := bind_eq_ok.mp h
    obtain ⟨prepared, -, hstarted⟩ := bind_eq_ok.mp hstarted
    cases prepared with
    | none =>
      cases hstarted
      exact absurd (pending_of_onReceived_fault h) hidle
    | some p =>
      cases hstarted
      cases h
      exact .header _ hpending rfl rfl
  | readBody b =>
    simp only [Session.complete, hpending, hec, Connection.handleReadData] at h
    obtain ⟨⟨ec, length, cdata⟩, hread, h⟩ := bind_eq_ok.mp h
    obtain ⟨value, -, hread⟩ := bind_eq_ok.mp hread
    cases hread
    obtain ⟨data, -, h⟩ := bind_eq_ok.mp h
    cases h
    obtain ⟨hwrite, haccepted, hreplies⟩ := written_of_doReply hidle
    exact .body b hpending _ hwrite haccepted hreplies

def maxFrame : Nat := headerLength + 16 ^ headerLength

theorem length_frame_le {T : Type} {c : Codec T} {a : T} (h : Accepted f c a) : (frame f c a).length ≤ maxFrame := by
  have hlen : (encode f c a).length < 16 ^ headerLength := h
  rw [frame, List.length_append, length_formatHeader h, maxFrame]
  omega

/-- The work left to a session that has answered `m` requests before the one in hand: the operations up to the
answer and the bytes of it, or the end of its write. -/
def stage (m : Nat) (t : Session D A) : Nat :=
  if m < t.replies.length then
    match t.pending with
    | .handshake | .write _ => 1
    | _ => 0
  else maxFrame +
    match t.pending with
    | .handshake => 5
    | .write _ => 4
    | .readHeader => 3
    | .readBody _ => 2
    | _ => 0

theorem Carries.not_replied (h : Carries f cd cr strategy done (some d) bytes ch s) (hp : s.pending = .readHeader)
    (hready : headerLength ≤ ch.atServer.length) : ¬ done.length < s.replies.length := by
  intro hreplied
  obtain ⟨hbytes, hreplies⟩ := h.serves.between (.inr (.inr (.inl hp)))
  have hcount := hreplies.length_eq
  have hlen := h.serves.requests.length_le
  have hinbound := h.inbound
  simp only [Option.toList_some, List.length_append, List.length_singleton] at hlen
  have hrequests : s.requests = done ++ [d] := h.serves.requests.eq_of_length (by simp; omega)
  rw [hbytes, hrequests, Option.toList_some, List.append_assoc, List.append_right_eq_self, List.append_eq_nil_iff]
    at hinbound
  rw [hinbound.1] at hready
  exact absurd hready (by decide)

/-- Within a body a session has replied to the requests before. -/
theorem Carries.not_replied_inside (h : Carries f cd cr strategy done (some d) bytes ch s) {b : Connection.BodyRead}
    (hp : s.pending = .readBody b) : s.replies.length = done.length := by
  obtain ⟨d', hnext, -, -, -, hreplies⟩ := h.serves.inside b hp
  have hcount := hreplies.length_eq
  have hlen := hnext.length_le
  have hanswered := h.answered
  simp only [Option.toList_some, List.length_append, List.length_singleton] at hlen
  omega

/-- **A handler without an error takes more off the work than it puts on the connection.** -/
theorem stage_complete (h : Carries f cd cr strategy done (some d) bytes ch s) (hfits : s.pending.Fits c)
    (harrived : c.received <+: ch.atServer) (hec : c.ec = none) (ht : s.complete f cd cr strategy c = .ok t)
    (hidle : t.pending ≠ .idle) : (output t).length + stage done.length t < stage done.length s := by
  cases advances_of_complete ht hec h.accepted hidle with
  | started hp ht' hreplies =>
    simp only [output, ht', List.length_nil, stage, hreplies, hp]
    split <;> simp
  | written put hp ht' hreplies =>
    simp only [output, ht', List.length_nil, stage, hreplies, hp]
    split <;> simp
  | header b hp ht' hreplies =>
    have hready : headerLength ≤ ch.atServer.length := by
      rw [← show c.received.length = headerLength by rw [hfits.2 hec, hp, Pending.size]]
      exact harrived.length_le
    have hnot := h.not_replied hp hready
    simp only [output, ht', List.length_nil, stage, hreplies, hp, if_neg hnot]
    omega
  | body b hp r ht' haccepted hreplies =>
    have hlen := length_frame_le haccepted
    have hcount := h.not_replied_inside hp
    have hreplied : done.length < t.replies.length := by
      rw [hreplies, List.length_append, List.length_singleton]
      omega
    simp only [output, ht', stage, hp, if_pos hreplied, if_neg (show ¬ done.length < s.replies.length by omega)]
    omega

end Session

/-! ## The exchange -/

section Exchange
variable {f : Filter} {cd : Codec ClientData} {cr : Codec (Response ServerData)} {clientId : Bytes}
  {keepAlive secured : Bool} {n m j k : Nat} {ls : List Label} {s s' : State} {l : Label} {ch ch' : Channel}
  {server server' : AsyncServer ClientData ServerData} {t : Session ClientData ServerData}

def Channel.way (ch : Channel) : Nat := ch.toServer.length + ch.toClient.length

/-- The work left to the session of a connection, which may still have to be accepted. -/
def remaining (m : Nat) (server : AsyncServer ClientData ServerData) (ch : Channel) : Nat :=
  match ch.session with
  | none => maxFrame + 6
  | some i => (server.sessions[i]?.map (stage m)).getD 0

/-- The work left on the connection in use, which has carried the answers since there were `n` of them. -/
def State.work (n : Nat) (s : State) : Nat :=
  match newest s.channels with
  | none => 0
  | some (_, ch) => ch.way + remaining (s.since n).length s.server ch

theorem work_of_newest (h : newest s.channels = some (j, ch)) :
    s.work n = ch.way + remaining (s.since n).length s.server ch := by
  rw [State.work, h]

variable (ch) in
theorem way_deliverToServer (n : Nat) : (ch.deliverToServer n).way ≤ ch.way ∧
    (0 < n → ch.toServer ≠ [] → (ch.deliverToServer n).way < ch.way) := by
  simp only [Channel.way, Channel.deliverToServer, List.length_drop]
  refine ⟨by omega, fun hn hne => ?_⟩
  have := List.length_pos_iff.mpr hne
  omega

variable (ch) in
theorem way_deliverToClient (n : Nat) : (ch.deliverToClient n).way ≤ ch.way ∧
    (0 < n → ch.toClient ≠ [] → (ch.deliverToClient n).way < ch.way) := by
  simp only [Channel.way, Channel.deliverToClient, List.length_drop]
  refine ⟨by omega, fun hn hne => ?_⟩
  have := List.length_pos_iff.mpr hne
  omega

theorem remaining_of_session (m : Nat) (server : AsyncServer ClientData ServerData) (h : ch'.session = ch.session) :
    remaining m server ch' = remaining m server ch := by
  rw [remaining, remaining, h]

theorem remaining_some {i : Nat} (m : Nat) (h : ch.session = some i) (ht : server.sessions[i]? = some t) :
    remaining m server ch = stage m t := by
  rw [remaining, h]
  simp [ht]

theorem remaining_of_step {e : Event ClientData ServerData} (m : Nat) (hpartner : Partner server ch t)
    (hp : t.pending ≠ .accept) (hstep : AsyncServer.Step f cd cr serverAction secured server e server')
    (hother : ∀ i c, ch.session = some i → e ≠ .completed i c) : remaining m server' ch = remaining m server ch := by
  cases hsession : ch.session with
  | none => rw [remaining, remaining, hsession]
  | some i =>
    rw [partner_some hsession] at hpartner
    rcases AsyncServer.session_of_step hpartner hp hstep with ⟨c, t', heq, -, -⟩ | ⟨-, hsame⟩
    · exact absurd heq (hother i c hsession)
    · rw [remaining_some m hsession hpartner, remaining_some m hsession hsame]

theorem partner_none (h : ch.session = none) (hpartner : Partner server ch t) :
    t.requests = [] ∧ t.replies = [] ∧ t.pending = .readHeader := by
  simpa only [Partner, h] using hpartner

theorem work_deliver (hnewest : newest s.channels = some (j, ch)) (hch : s.channels[k]? = some ch')
    (ch₁ : Channel) (hsession : ch₁.session = ch'.session) (hway : ch₁.way ≤ ch'.way) :
    (s.setChannel k ch₁).work n ≤ s.work n ∧ (k = j → ch₁.way < ch'.way → (s.setChannel k ch₁).work n < s.work n) := by
  have hset := newest_set hnewest hch ch₁
  rw [work_of_newest hnewest, work_of_newest (s := s.setChannel k ch₁) hset]
  by_cases hj : j = k
  · subst hj
    rw [(newest_eq_some_iff.mp hnewest).1] at hch
    cases hch
    rw [if_pos rfl, remaining_of_session _ _ hsession]
    exact ⟨Nat.add_le_add_right hway _, fun _ hless => Nat.add_lt_add_right hless _⟩
  · rw [if_neg hj]
    exact ⟨le_rfl, fun h => absurd h.symm hj⟩

theorem work_accepted {i : Nat} {cdata : ClientData} {response : Response ServerData} (howned : Owned s.server s.channels)
    (hnewest : newest s.channels = some (j, ch)) (hpartner : Partner s.server ch t) (hp : t.pending ≠ .accept)
    (hch : s.channels[k]? = some ch') (hsession : ch'.session = none) (hacc : s.server.Accepting i)
    (hserver : AsyncServer.Step f cd cr serverAction secured s.server (.accepted i none cdata response) server') :
    let s' := State.setChannel { s with server := server' } k (ch'.accept i)
    s'.work n ≤ s.work n ∧ (k = j → s'.work n < s.work n) := by
  intro s'
  have hset : newest s'.channels = _ := newest_set hnewest hch (ch'.accept i)
  rw [work_of_newest hnewest, work_of_newest hset]
  show _ + remaining (s.since n).length server' _ ≤ _ ∧ (_ → _ + remaining (s.since n).length server' _ < _)
  by_cases hj : j = k
  · subst hj
    rw [(newest_eq_some_iff.mp hnewest).1] at hch
    cases hch
    obtain ⟨t', ht', -, hreplies, hp'⟩ := session_of_accepted howned.wellFormed hacc hserver
    have hstage : stage (s.since n).length t' ≤ maxFrame + 5 := by
      rw [stage, hreplies, if_neg (by simp)]
      rcases hp' with hp' | hp' <;> simp [hp']
    have hbefore : remaining (s.since n).length s.server ch = maxFrame + 6 := by rw [remaining, hsession]
    have hway : (ch.accept i).way = ch.way := rfl
    rw [if_pos rfl, remaining_some _ rfl ht', hbefore, hway]
    exact ⟨by omega, fun _ => by omega⟩
  · rw [if_neg hj, remaining_of_step _ hpartner hp hserver fun _ _ _ => nofun]
    exact ⟨le_rfl, fun h => absurd h.symm hj⟩

theorem work_completed {i : Nat} {c : Completion} {d : ClientData} {bytes : Bytes} (howned : Owned s.server s.channels)
    (hnewest : newest s.channels = some (j, ch)) (hpartner : Partner s.server ch t)
    (hcarries : Carries f cd cr serverAction (s.since n) (some d) bytes ch t)
    (hch : s.channels[k]? = some ch') (hsession : ch'.session = some i)
    (hpossible : s.server.Possible (.completed i c)) (harrived : c.received <+: ch'.atServer)
    (hserver : AsyncServer.Step f cd cr serverAction secured s.server (.completed i c) server')
    (hec : k = j → c.ec = none)
    (hidle : k = j → ∀ t', server'.sessions[i]? = some t' → t'.pending ≠ .idle) :
    let s' := State.setChannel { s with server := server' } k (ch'.serve c.received (State.written server' i))
    s'.work n ≤ s.work n ∧ (k = j → s'.work n < s.work n) := by
  intro s'
  have hset : newest s'.channels = _ := newest_set hnewest hch (ch'.serve c.received (State.written server' i))
  rw [work_of_newest hnewest, work_of_newest hset]
  show _ + remaining (s.since n).length server' _ ≤ _ ∧ (_ → _ + remaining (s.since n).length server' _ < _)
  by_cases hj : j = k
  · subst hj
    rw [(newest_eq_some_iff.mp hnewest).1] at hch
    cases hch
    rw [partner_some hsession] at hpartner
    obtain ⟨t₀, ht₀, -, -, hfits⟩ := hpossible
    rw [hpartner] at ht₀
    cases ht₀
    rcases AsyncServer.session_of_step hpartner hcarries.accepted hserver with ⟨c', t', heq, ht, ht'⟩ | ⟨hne, -⟩
    swap
    · exact absurd rfl (hne c)
    cases heq
    have hless := stage_complete hcarries hfits harrived (hec rfl) ht (hidle rfl t' ht')
    have hwritten : State.written server' i = output t' := by rw [State.written, ht']; rfl
    have hway : (ch.serve c.received (output t')).way = ch.way + (output t').length := by
      simp only [Channel.way, Channel.serve, List.length_append]
      omega
    have hserved : (ch.serve c.received (output t')).session = some i := hsession
    rw [if_pos rfl, hwritten, remaining_some _ hserved ht', remaining_some _ hsession hpartner, hway]
    exact ⟨by omega, fun _ => by omega⟩
  · have hother : ∀ i' c', ch.session = some i' → (.completed i c : Event ClientData ServerData) ≠ .completed i' c' := by
      intro i' c' hi' heq
      cases heq
      exact hj (howned.unique j k ch ch' i (newest_eq_some_iff.mp hnewest).1 hch hi' hsession)
    rw [if_neg hj, remaining_of_step _ hpartner hcarries.accepted hserver hother]
    exact ⟨le_rfl, fun h => absurd h.symm hj⟩

/-- Until the response is read the client's thread stays where it is. -/
theorem waiting_of_steps {d : ClientData} (hpc : s.threads.client.pc = .sending d) (hawaiting : s.awaiting ≠ none)
    (hread : ∀ fault, l ≠ .read fault) (hsteps : State.Steps f cd cr clientId keepAlive secured s l s') :
    s'.threads.client.pc = .sending d ∧ s'.threads.client.answered = s.threads.client.answered ∧
      s'.awaiting ≠ none := by
  cases hsteps with
  | thread a hlocal threads hthreads =>
    cases a with
    | scrape u =>
      obtain ⟨hsame, -, hanswered⟩ := pc_of_scrapes (Threads.scrapes_iff.mp hthreads)
      exact ⟨hsame.trans hpc, hanswered, hawaiting⟩
    | client move =>
      obtain ⟨client, hnext, rfl⟩ := Option.map_eq_some_iff.mp hthreads
      have hmoves := Thread.moves_of_next hnext
      cases move with
      | internal => exact absurd hpc (Thread.not_sending_of_moves hmoves d)
      | sent result => cases hlocal
      | opened result =>
        cases hmoves with
        | opened hopening => cases hlocal
        | notOpened hopening e => exact absurd (hopening.symm.trans hpc) nofun
  | opened threads hthreads =>
    obtain ⟨client, hnext, rfl⟩ := Option.map_eq_some_iff.mp hthreads
    cases Thread.moves_of_next hnext with
    | opened hopening => exact absurd (hopening.symm.trans hpc) nofun
  | written k fresh' d' hpc' hnone j' ch hnewest' hec => exact absurd hnone hawaiting
  | notWritten k fresh' d' hpc' hnone j' ch hnewest' e hec threads hthreads => exact absurd hnone hawaiting
  | read fault fresh' hsome j' ch hnewest' r hr threads hthreads => exact absurd rfl (hread fault)
  | readThrows fault fresh' hsome j' ch hnewest' e hr threads hthreads => exact absurd rfl (hread fault)
  | _ => exact ⟨hpc, rfl, hawaiting⟩

/-- **No step adds to the work that is left**, and one that takes the exchange further takes something off, as long
as nothing fails and the client does not read. -/
theorem work_steps (hinv : Invariant f cd cr s) (h : InStep f cd cr n j ls s) (hawaiting : s.awaiting ≠ none)
    (hfaultless : s.Faultless f cd cr l) (hread : ∀ fault, l ≠ .read fault)
    (hsteps : State.Steps f cd cr clientId keepAlive secured s l s') (h' : InStep f cd cr n j (ls ++ [l]) s')
    (hup : s'.up = true) : s'.work n ≤ s.work n ∧ (s.Productive l → s'.work n < s.work n) := by
  obtain ⟨d, hpc⟩ := hinv.agreed.awaiting hawaiting
  obtain ⟨fresh, hfresh⟩ := Option.ne_none_iff_exists'.mp hawaiting
  obtain ⟨t, ⟨ch₀, hnewest, hpartner, hcarries⟩, hidle⟩ := h.tied
  rw [awaited_of_some hpc hfresh] at hcarries
  obtain ⟨-, hsame, -⟩ := waiting_of_steps hpc hawaiting hread hsteps
  cases hsteps with
  | thread a hlocal threads hthreads =>
    have hwork : State.work n { s with threads } = s.work n := by
      have hsince : State.since { s with threads } n = s.since n := by rw [State.since, State.since, hsame]
      rw [State.work, State.work, hsince]
    refine ⟨hwork.le, ?_⟩
    rintro ⟨-, -, -, ⟨⟩⟩
  | opened threads hthreads => exact hfaultless.elim
  | written k fresh' d' hpc' hnone j' ch hnewest' hec => exact absurd hnone hawaiting
  | notWritten k fresh' d' hpc' hnone j' ch hnewest' e hec threads hthreads => exact absurd hnone hawaiting
  | read fault fresh' hsome j' ch hnewest' r hr threads hthreads => exact absurd rfl (hread fault)
  | readThrows fault fresh' hsome j' ch hnewest' e hr threads hthreads => exact absurd rfl (hread fault)
  | toServer k m ch hch =>
    obtain ⟨hle, hless⟩ := work_deliver (n := n) hnewest hch (ch.deliverToServer m) rfl (way_deliverToServer ch m).1
    refine ⟨hle, ?_⟩
    rintro ⟨j', ch₁, hnewest', hk, hm, hway, -⟩
    obtain ⟨rfl, rfl⟩ := Prod.mk.inj (Option.some.inj (hnewest.symm.trans hnewest'))
    subst hk
    rw [(newest_eq_some_iff.mp hnewest).1] at hch
    cases hch
    exact hless rfl ((way_deliverToServer _ m).2 hm hway)
  | toClient k m ch hch =>
    obtain ⟨hle, hless⟩ := work_deliver (n := n) hnewest hch (ch.deliverToClient m) rfl (way_deliverToClient ch m).1
    refine ⟨hle, ?_⟩
    rintro ⟨j', ch₁, hnewest', hk, hm, hway⟩
    obtain ⟨rfl, rfl⟩ := Prod.mk.inj (Option.some.inj (hnewest.symm.trans hnewest'))
    subst hk
    rw [(newest_eq_some_iff.mp hnewest).1] at hch
    cases hch
    exact hless rfl ((way_deliverToClient _ m).2 hm hway)
  | accepted k i cdata response ch hch hsession hacc server hserver =>
    obtain ⟨hle, hless⟩ := work_accepted (n := n) hinv.owned hnewest hpartner hcarries.accepted hch hsession hacc hserver
    refine ⟨hle, ?_⟩
    rintro ⟨j', ch₁, hnewest', hk⟩
    apply hless
    obtain ⟨rfl, rfl⟩ := Prod.mk.inj (Option.some.inj (hnewest.symm.trans hnewest'))
    exact hk
  | completed k i c ch hch hsession hpossible harrived server hserver =>
    obtain ⟨hle, hless⟩ := work_completed (n := n) hinv.owned hnewest hpartner hcarries hch hsession hpossible harrived
      hserver (fun hk => (hfaultless (j, ch₀) hnewest hk).1) fun hk t' ht' => by
        subst hk
        obtain ⟨t'', ⟨ch'', hnewest'', hpartner'', -⟩, hidle''⟩ := h'.tied
        have hset := newest_set hnewest hch (ch.serve c.received (State.written server i))
        rw [if_pos rfl] at hset
        obtain ⟨-, rfl⟩ := Prod.mk.inj (Option.some.inj (hset.symm.trans hnewest''))
        have hserved : (ch.serve c.received (State.written server i)).session = some i := hsession
        have ht'' := (partner_some hserved).mp hpartner''
        cases ht'.symm.trans ht''
        exact hidle''
    refine ⟨hle, ?_⟩
    rintro ⟨j', ch₁, hnewest', hk, -⟩
    apply hless
    obtain ⟨rfl, rfl⟩ := Prod.mk.inj (Option.some.inj (hnewest.symm.trans hnewest'))
    exact hk
  | other e hown hpossible server hserver =>
    have hsame : remaining (s.since n).length server ch₀ = remaining (s.since n).length s.server ch₀ :=
      remaining_of_step _ hpartner hcarries.accepted hserver fun i c hi heq => by
        subst heq
        exact hown ⟨ch₀, List.mem_of_getElem? (newest_eq_some_iff.mp hnewest).1, hi⟩
    have hwork : State.work n { s with server } = s.work n := by
      rw [work_of_newest hnewest, work_of_newest (s := { s with server }) hnewest]
      exact congrArg _ hsame
    refine ⟨hwork.le, ?_⟩
    rintro ⟨-, -, -, ⟨⟩⟩
  | crashed l => cases hup

/-! ### What is left at most -/

theorem Carries.toServer_le {d : ClientData} {done : List ClientData} {bytes : Bytes}
    (h : Carries f cd cr serverAction done (some d) bytes ch t) (hidle : t.pending ≠ .idle) :
    ch.toServer.length ≤ (frame f cd d).length := by
  have hprefix : done <+: t.requests := by
    have hcount := (h.serves.replied hidle).length_eq
    have hanswered := h.answered
    exact List.prefix_of_prefix_length_le (List.prefix_append _ _) h.serves.requests (by omega)
  have hread : (done.flatMap (frame f cd)).length ≤ bytes.length := by
    obtain ⟨later, hlater⟩ := hprefix
    have harrived := h.serves.arrived.length_le
    rw [← hlater, List.flatMap_append, List.length_append] at harrived
    omega
  have hinbound := congrArg List.length h.inbound
  rw [Option.toList_some, List.flatMap_append, List.flatMap_singleton] at hinbound
  simp only [List.length_append] at hinbound
  omega

/-- Either all of the answer is still to come, or at most the frame of it is on its way. -/
theorem Carries.toClient_add_stage_le {d : ClientData} {done : List ClientData} {bytes : Bytes}
    (h : Carries f cd cr serverAction done (some d) bytes ch t) :
    ch.toClient.length + stage done.length t ≤ maxFrame + 5 := by
  have houtbound := congrArg List.length h.outbound
  rcases h.reply with hsilent | ⟨r, hdrop, hreplied⟩
  · rw [hsilent, List.flatMap_nil, List.length_append, List.length_nil] at houtbound
    have hnot : ¬ done.length < t.replies.length := Nat.not_lt.mpr (List.drop_eq_nil_iff.mp hsilent)
    rw [stage, if_neg hnot]
    cases t.pending <;> simp only [] <;> omega
  · rw [hdrop, List.flatMap_singleton, List.length_append] at houtbound
    have hlen := length_frame_le hreplied.accepted
    have hreplied' : done.length < t.replies.length := by
      have hcount := congrArg List.length hdrop
      rw [List.length_drop, List.length_singleton] at hcount
      omega
    rw [stage, if_pos hreplied']
    cases t.pending <;> simp only [] <;> omega

/-- **The work that is left** is bounded by the lengths of the frames. -/
theorem work_le {d : ClientData} (h : InStep f cd cr n j ls s) (hawaited : s.awaited = some d) :
    s.work n ≤ (frame f cd d).length + maxFrame + 6 := by
  obtain ⟨t, ⟨ch, hnewest, hpartner, hcarries⟩, hidle⟩ := h.tied
  rw [hawaited] at hcarries
  have hin := hcarries.toServer_le hidle
  have hout := hcarries.toClient_add_stage_le
  rw [work_of_newest hnewest, Channel.way]
  cases hsession : ch.session with
  | none =>
    -- a session that has not been accepted has written nothing
    obtain ⟨-, hreplies, -⟩ := partner_none hsession hpartner
    have houtbound := hcarries.outbound
    rw [hreplies, List.drop_nil, List.flatMap_nil, List.append_eq_nil_iff] at houtbound
    have hremaining : remaining (s.since n).length s.server ch = maxFrame + 6 := by rw [remaining, hsession]
    rw [hremaining, houtbound.2, List.length_nil]
    omega
  | some i =>
    rw [partner_some hsession] at hpartner
    rw [remaining_some _ hsession hpartner]
    omega

/-! ### The end of it -/

variable (f cd cr) in
def State.Underway (s : State) (l : Label) : Prop := s.Faultless f cd cr l ∧ ∀ fault, l ≠ .read fault

variable (f cd cr) in
/-- The exchange of `d` is under way: the request is written, and its answer is awaited. -/
structure Awaiting (n j : Nat) (d : ClientData) (ls : List Label) (s : State) : Prop where
  invariant : Invariant f cd cr s
  inStep : InStep f cd cr n j ls s
  sending : s.threads.client.pc = .sending d
  awaiting : s.awaiting ≠ none

theorem Awaiting.awaited {d : ClientData} (h : Awaiting f cd cr n j d ls s) : s.awaited = some d := by
  obtain ⟨fresh, hfresh⟩ := Option.ne_none_iff_exists'.mp h.awaiting
  exact awaited_of_some h.sending hfresh

section Run
variable {d : ClientData}

/-- The exchange stays under way until the client reads, and there is no more work than before. -/
theorem awaiting_steps (hreq : ∀ d, ProperRequest d → Sound f cd d)
    (hresp : ∀ d r, Replied f cr serverAction d r → Sound f cr r) (h : Awaiting f cd cr n j d ls s)
    (hunderway : s.Underway f cd cr l)
    (hsteps : State.Steps f cd cr clientId keepAlive secured s l s') (hup : s'.up = true) :
    Awaiting f cd cr n j d (ls ++ [l]) s' ∧ s'.threads.client.answered = s.threads.client.answered ∧
      s'.work n ≤ s.work n ∧ (s.Productive l → s'.work n < s.work n) := by
  obtain ⟨hpc, hanswered, hawaiting⟩ := waiting_of_steps h.sending h.awaiting hunderway.2 hsteps
  have hinStep := inStep_steps hresp h.invariant (fun _ => h.inStep) hunderway.1 hsteps hup (by rw [hpc]; trivial)
  obtain ⟨hle, hless⟩ := work_steps h.invariant h.inStep h.awaiting hunderway.1 hunderway.2 hsteps hinStep hup
  exact ⟨⟨invariant_steps hreq hresp h.invariant hsteps, hinStep, hpc, hawaiting⟩, hanswered, hle, hless⟩

/-- **The steps that take an exchange further are bounded**, whatever happens in between. -/
theorem productive_bounded {m : Nat} (hreq : ∀ d, ProperRequest d → Sound f cd d)
    (hresp : ∀ d r, Replied f cr serverAction d r → Sound f cr r) (h : Awaiting f cd cr n j d ls s) {ls' : List Label}
    (htally : Tally (StepOf (State.step f cd cr clientId keepAlive secured)) State.Productive s ls' s' m)
    (hunderway : Always (StepOf (State.step f cd cr clientId keepAlive secured)) (State.Underway f cd cr) s ls')
    (hup : s'.up = true) : m ≤ (frame f cd d).length + maxFrame + 6 := by
  obtain ⟨-, hle⟩ := htally.add_le (I := fun es u => Awaiting f cd cr n j d (ls ++ es) u) (K := fun u => u.up = true)
    (State.work n) hunderway (by rwa [List.append_nil]) hup
    (fun t l u hstep hup => up_of_steps (State.steps_of_step hstep) hup)
    fun es t l u h hl hstep hup => by
      obtain ⟨h', -, hle, hless⟩ := awaiting_steps hreq hresp h hl (State.steps_of_step hstep) hup
      exact ⟨by rwa [List.append_assoc] at h', hle, hless⟩
  have := work_le h.inStep h.awaited
  omega

def State.Arrived (s : State) : Prop := ∃ p, newest s.channels = some p ∧ Whole p.2.atClient

theorem eq_frame_of_whole {r : Response ServerData} {bytes : Bytes} (h : Accepted f cr r) (hs : bytes <+: frame f cr r)
    (hwhole : Whole bytes) : bytes = frame f cr r := by
  unfold Whole at hwhole
  split at hwhole
  swap
  · exact hwhole.elim
  rename_i size hsize
  obtain ⟨missing, hmissing⟩ := hs
  have htake : bytes.take headerLength = formatHeader (encode f cr r).length := by
    have hfront : (bytes ++ missing).take headerLength = bytes.take headerLength :=
      List.take_append_of_le_length (by omega)
    rw [← hfront, hmissing, frame, ← length_formatHeader h, List.take_left]
  rw [htake, handleDetermineDataSize_formatHeader h, Option.some.injEq] at hsize
  refine List.IsPrefix.eq_of_length_le ⟨missing, hmissing⟩ ?_
  rw [frame, List.length_append, length_formatHeader h]
  omega

theorem Carries.frame_of_whole {done : List ClientData} {bytes : Bytes}
    (h : Carries f cd cr serverAction done (some d) bytes ch t) (hwhole : Whole ch.atClient) :
    ∃ r, Replied f cr serverAction d r ∧ ch.atClient = frame f cr r := by
  have houtbound := h.outbound
  rcases h.reply with hsilent | ⟨r, hdrop, hreplied⟩
  · rw [hsilent, List.flatMap_nil, List.append_eq_nil_iff] at houtbound
    rw [houtbound.1] at hwhole
    exact absurd hwhole (by decide)
  rw [hdrop, List.flatMap_singleton] at houtbound
  exact ⟨r, hreplied, eq_frame_of_whole hreplied.accepted ⟨_, houtbound⟩ hwhole⟩

/-- An answer that has arrived can be read, and if it decodes it is given to the strategy. -/
theorem response_read (fault : Fault) (h : Awaiting f cd cr n j d ls s) (harrived : s.Arrived)
    (hdecodes : ∀ r, Replied f cr serverAction d r → Decodes f cr r) :
    ∃ s' r, s.step f cd cr clientId keepAlive secured (.read fault) = some s' ∧ s'.up = s.up ∧ s'.awaiting = none ∧
      Answers d r ∧ s'.threads.client.answered = s.threads.client.answered ++ [(d, r)] := by
  obtain ⟨fresh, hfresh⟩ := Option.ne_none_iff_exists'.mp h.awaiting
  obtain ⟨⟨j', ch⟩, hnewest, hwhole⟩ := harrived
  obtain ⟨t, ⟨ch', hnewest', -, hcarries⟩, -⟩ := h.inStep.tied
  rw [hnewest'] at hnewest
  cases hnewest
  rw [h.awaited] at hcarries
  obtain ⟨r, hreplied, hframe⟩ := hcarries.frame_of_whole hwhole
  obtain ⟨hanswers, hsent⟩ := onSent_of_replied h.invariant.agreed h.sending hreplied
  have hbytes : (Source.mk [ch.atClient] fault).bytes = frame f cr r ++ [] := by simp [Source.bytes, hframe]
  have hreads : ∃ read, s.connection.read f cr fresh ⟨[ch.atClient], fault⟩ = .ok read ∧ read.ec = none ∧
      read.value = r ∧ read.source.bytes = [] := Connection.read_frame _ _ hreplied.accepted (hdecodes r hreplied) hbytes
  obtain ⟨read, hread, hec, rfl, -⟩ := hreads
  have hstep : s.threads.step clientId keepAlive (.client (.sent (.ok (read.ec, read.value)))) =
      some { s.threads with client := s.threads.client.onSent ClientActions d (.ok (none, read.value)) } := by
    simp [Threads.step, Thread.next, h.sending, hec]
  have hread' : s.step f cd cr clientId keepAlive secured (.read fault) = some (State.setChannel { s with
      threads := { s.threads with client := s.threads.client.onSent ClientActions d (.ok (none, read.value)) },
      awaiting := none, connection := read.connection } j (ch.leave read.source.bytes)) := by
    simp only [State.step, hfresh, hnewest', hread, State.follow, State.setChannel, hstep, Option.map_some]
  refine ⟨_, read.value, hread', rfl, rfl, hanswers, ?_⟩
  simp only [State.setChannel, hsent]

/-- **The answer can still be given**: the steps that take the exchange further lead to it, as many as there is
work left at most. -/
theorem response_arrives (hreq : ∀ d, ProperRequest d → Sound f cd d)
    (hresp : ∀ d r, Replied f cr serverAction d r → Sound f cr r) (h : Awaiting f cd cr n j d ls s)
    (hup : s.up = true) {now : Int} (hfits : s.ReplyFitsAt f cr now) :
    ∃ ls' s', Tally (StepOf (State.step f cd cr clientId keepAlive secured))
        (fun u l => u.Productive l ∧ u.Faultless f cd cr l) s ls' s' ls'.length ∧
      ls'.length ≤ s.work n ∧ Awaiting f cd cr n j d (ls ++ ls') s' ∧ s'.up = true ∧
      s'.threads.client.answered = s.threads.client.answered ∧ s'.Arrived := by
  obtain ⟨ls', s', htally, hlen, ⟨hawaiting, hup', hanswered⟩, harrived⟩ := exists_tally_of_measure
    (StepOf (State.step f cd cr clientId keepAlive secured))
    (fun u l => u.Productive l ∧ u.Faultless f cd cr l) (State.work n) (G := State.Arrived)
    (I := fun ls u => Awaiting f cd cr n j d ls u ∧ u.up = true ∧
      u.threads.client.answered = s.threads.client.answered)
    ⟨h, hup, rfl⟩ fun ls u ⟨h', hup, hanswered⟩ harrived => by
      obtain ⟨l, u', hproductive, hat, hstep, hup'⟩ :=
        exists_productive_at clientId keepAlive secured h'.invariant h'.inStep h'.awaiting hup now
      have hsame : u.sending = s.sending := (sending_eq_some h'.sending).trans (sending_eq_some h.sending).symm
      have hfaultless : u.Faultless f cd cr l :=
        hproductive.faultless_at now hat (by rw [State.ReplyFitsAt, hsame]; exact hfits)
      have hread : ∀ fault, l ≠ .read fault := fun fault hl => by
        subst hl
        obtain ⟨j', ch, hnewest, hwhole⟩ := hproductive
        exact harrived ⟨_, hnewest, hwhole⟩
      obtain ⟨hnext, hsame', -, hless⟩ :=
        awaiting_steps hreq hresp h' ⟨hfaultless, hread⟩ (State.steps_of_step hstep) hup'
      exact ⟨l, u', hstep, ⟨hproductive, hfaultless⟩, ⟨hnext, hup', hsame'.trans hanswered⟩, hless hproductive⟩
  exact ⟨ls', s', htally, hlen, hawaiting, hup', hanswered, harrived⟩

end Run

end Exchange

/-! ## The calculator -/

section Calculator
variable {z : Zlib} {compressed : Bool} {ar : TextArchive}

def State.FiniteAnswer (s : State) : Prop :=
  ∀ d ∈ s.sending, ∀ x, d.operation.answer d.operand1 d.operand2 = .ok x → x.isFinite = true

theorem decodes_of_finite (hz : compressed = true → z.Lawful) (har : ar.Lawful) {d : ClientData}
    (hfinite : ∀ x, d.operation.answer d.operand1 d.operand2 = .ok x → x.isFinite = true) {r : Response ServerData}
    (h : Replied (createFilter z compressed) (responseCodec ar) serverAction d r) :
    Decodes (createFilter z compressed) (responseCodec ar) r := by
  obtain ⟨now, hnow⟩ := h.data
  have hresult := (serverAction_answers hnow r.transmissionStatus).result
  exact response_decodes hz har (Operation.answer_proper hresult) (hfinite _ hresult)

/-- **Every exchange ends**, in every run since a connection was opened in whose steps nothing fails on it. While the
answer to a request is awaited, at most as many steps take the exchange further as its frame and that of an answer
have bytes, and six, whatever the threads, the network and the server do in between; and if the result is finite and
its frame not too long, such steps lead to the answer being given to the strategy. -/
theorem exchange_ends (hz : compressed = true → z.Lawful) (har : ar.Lawful) {clientId : Bytes}
    {keepAlive secured : Bool} {is : IStream} {padding : Padding} {connection : Connection} {cdata d : ClientData}
    {response : Response ServerData} {before ls : List Label} {s₁ s : State}
    (hopened : Runs (StepOf (State.step (createFilter z compressed) (requestCodec ar) (responseCodec ar) clientId
      keepAlive secured)) (.init is padding connection cdata response) (before ++ [.opened]) s₁)
    (hrun : Runs (StepOf (State.step (createFilter z compressed) (requestCodec ar) (responseCodec ar) clientId
      keepAlive secured)) s₁ ls s)
    (hfaultless : Always (StepOf (State.step (createFilter z compressed) (requestCodec ar) (responseCodec ar) clientId
      keepAlive secured)) (State.Faultless (createFilter z compressed) (requestCodec ar) (responseCodec ar)) s₁ ls)
    (hup : s.up = true) (hawaited : s.awaited = some d) :
    (∀ ls' s' m, Tally (StepOf (State.step (createFilter z compressed) (requestCodec ar) (responseCodec ar) clientId
        keepAlive secured)) State.Productive s ls' s' m →
      Always (StepOf (State.step (createFilter z compressed) (requestCodec ar) (responseCodec ar) clientId keepAlive
        secured)) (State.Underway (createFilter z compressed) (requestCodec ar) (responseCodec ar)) s ls' →
      s'.up = true → m ≤ (frame (createFilter z compressed) (requestCodec ar) d).length + maxFrame + 6) ∧
    (∀ now, s.ReplyFitsAt (createFilter z compressed) (responseCodec ar) now → s.FiniteAnswer → ∃ ls' s' r,
      Tally (StepOf (State.step (createFilter z compressed) (requestCodec ar) (responseCodec ar) clientId keepAlive
        secured)) (fun u l => u.Productive l ∧
          u.Faultless (createFilter z compressed) (requestCodec ar) (responseCodec ar) l) s ls' s' ls'.length ∧
      ls'.length ≤ (frame (createFilter z compressed) (requestCodec ar) d).length + maxFrame + 7 ∧ s'.up = true ∧
      s'.awaiting = none ∧ Answers d r ∧
      s'.threads.client.answered = s.threads.client.answered ++ [(d, r)]) := by
  have hreq : ∀ d, ProperRequest d → Sound (createFilter z compressed) (requestCodec ar) d :=
    fun d hd => request_sound hz har hd.1 hd.2
  have hresp : ∀ d r, Replied (createFilter z compressed) (responseCodec ar) serverAction d r →
      Sound (createFilter z compressed) (responseCodec ar) r := fun d r hr => sound_of_replied hz har hr
  obtain ⟨s₀, hrun₀, hstep⟩ := runs_snoc_iff.mp hopened
  have hinv₀ := invariant_run hreq hresp hrun₀
  have hinv₁ := invariant_steps hreq hresp hinv₀ (State.steps_of_step hstep)
  obtain ⟨hinv, hinStep⟩ :=
    inStep_run hreq hresp hinv₁ (fun _ => inStep_opened hinv₀ hstep) hrun hfaultless hup
  obtain ⟨hpc, hawaiting⟩ := sending_of_awaited hawaited
  have h : Awaiting (createFilter z compressed) (requestCodec ar) (responseCodec ar)
      s₁.threads.client.answered.length s₀.channels.length d ls s :=
    ⟨hinv, hinStep (by rw [hpc]; trivial), hpc, hawaiting⟩
  refine ⟨fun ls' s' m htally hunderway hup' => productive_bounded hreq hresp h htally hunderway hup', ?_⟩
  intro now hfits hfinite
  obtain ⟨ls', s', htally, hlen, h', hup', hanswered, harrived⟩ := response_arrives hreq hresp h hup hfits
  obtain ⟨s'', r, hread, hup'', hnone, hanswers, hgiven⟩ := response_read .eof h' harrived fun r hr =>
    decodes_of_finite hz har (hfinite d (sending_eq_some hpc)) hr
  have hwork := work_le h.inStep hawaited
  refine ⟨ls' ++ [.read .eof], s'', r, ?_, ?_, hup''.trans hup', hnone, hanswers, by rw [hgiven, hanswered]⟩
  · obtain ⟨⟨j, ch⟩, hnewest, hwhole⟩ := harrived
    rw [List.length_append, List.length_singleton]
    refine htally.append (.single hread ⟨⟨j, ch, hnewest, hwhole⟩, fun p hp => ?_⟩)
    rw [hnewest] at hp
    cases hp
    exact hwhole
  · rw [List.length_append, List.length_singleton]
    omega

theorem exchange_ends_second :
    ∃ s₁ s d, Runs (StepOf plainStep) twoLines (twoScraped ++ [.opened]) s₁ ∧
      Runs (StepOf plainStep) s₁ secondAwaited s ∧ s.threads.client.answered.length = 1 ∧ s.awaited = some d ∧
      (∀ ls' s' m, Tally (StepOf plainStep) State.Productive s ls' s' m →
        Always (StepOf plainStep) (State.Underway (createFilter ⟨id, .ok⟩ false) (requestCodec plainArchive)
          (responseCodec plainArchive)) s ls' →
        s'.up = true → m ≤ (frame (createFilter ⟨id, .ok⟩ false) (requestCodec plainArchive) d).length + maxFrame + 6) ∧
      ∃ ls' s' r, Tally (StepOf plainStep) (fun u l => u.Productive l ∧
          u.Faultless (createFilter ⟨id, .ok⟩ false) (requestCodec plainArchive) (responseCodec plainArchive) l)
            s ls' s' ls'.length ∧
        ls'.length ≤ (frame (createFilter ⟨id, .ok⟩ false) (requestCodec plainArchive) d).length + maxFrame + 7 ∧
        s'.up = true ∧ s'.awaiting = none ∧ Answers d r ∧
        s'.threads.client.answered = s.threads.client.answered ++ [(d, r)] := by
  have hplay : (play plainStep twoLines (twoScraped ++ [.opened])).any (fun s₁ =>
      (play (guarded plainStep (State.Faultless (createFilter ⟨id, .ok⟩ false) (requestCodec plainArchive)
        (responseCodec plainArchive))) s₁ secondAwaited).any fun s =>
          s.up && decide (s.threads.client.answered.length = 1) && s.awaited.any fun d =>
            (serverAction 7 d).toOption.all fun data =>
              decide (Accepted (createFilter ⟨id, .ok⟩ false) (responseCodec plainArchive)
                (⟨.ok, data⟩ : Response ServerData)) && data.result.isFinite) = true := by decide +kernel
  obtain ⟨s₁, hs₁, hrest⟩ := (Option.any_eq_true _ _).mp hplay
  obtain ⟨s, hs, hlast⟩ := (Option.any_eq_true _ _).mp hrest
  simp only [Bool.and_eq_true, decide_eq_true_eq] at hlast
  obtain ⟨⟨hup, hone⟩, hreply⟩ := hlast
  obtain ⟨d, hawaited, hreply⟩ := (Option.any_eq_true _ _).mp hreply
  simp only [Option.all_eq_true, Bool.and_eq_true, decide_eq_true_eq] at hreply
  obtain ⟨hrun, hfaultless⟩ := runs_of_play_guarded hs
  obtain ⟨hbound, hends⟩ := exchange_ends (by simp) plainArchive_lawful (runs_of_play hs₁) hrun hfaultless hup hawaited
  have hsending := sending_eq_some (sending_of_awaited hawaited).1
  refine ⟨s₁, s, d, runs_of_play hs₁, hrun, hone, hawaited, hbound, hends 7 ?_ ?_⟩
  · intro d' hd' data hdata
    rw [hsending] at hd'
    cases hd'
    exact (hreply data hdata).1
  · intro d' hd' x hx
    rw [hsending] at hd'
    cases hd'
    have haction : serverAction 7 d = .ok ⟨7, d.id, x, d.padding⟩ := by
      simp only [serverAction, hx, ok_bind, pure_eq_ok]
    exact (hreply _ (by rw [haction]; rfl)).2

end Calculator

end TCPClientServer.System
