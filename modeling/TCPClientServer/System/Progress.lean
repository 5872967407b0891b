import TCPClientServer.System.Agreement

/-!
# No deadlock

As long as nothing fails, the client and the session of its connection never wait for each other: while the
client awaits a response there is something to be done, and between two exchanges nothing is left over.

* `Carries.progress`, `Carries.settled` : one connection, while an answer is awaited and in between;
* `Faultless` : steps in which nothing fails on the connection in use; `Productive` : those that take an exchange
  further;
* `InStep` : the invariant; `inStep_steps` : every step keeps it that is faultless, and `inStep_run` every run;
* `exists_productive` : one is possible while an answer is awaited;
* `no_deadlock` : what it comes to for the calculator.
-/

namespace TCPClientServer.System
open TCPClientServer.Basis TCPClientServer.Io TCPClientServer.Server TCPClientServer.Client TCPClientServer.Calculator

/-! ## One connection -/

section Link
variable {D A : Type} {f : Filter} {cd : Codec D} {cr : Codec (Response A)} {strategy : Int → D → Except Exn A}
  {done : List D} {d : D} {bytes : Bytes} {ch : Channel} {s : Session D A}

def HeaderNext : Pending → Prop
  | .handshake | .readHeader | .write _ => True
  | _ => False

def Reading (p : Pending) : Prop := p = .readHeader ∨ ∃ b, p = .readBody b

theorem headerLength_le_frame (h : Accepted f cd d) : headerLength ≤ (frame f cd d).length := by
  rw [frame, List.length_append, length_formatHeader h]
  omega

/-- As long as the reply is not there, the session has read the requests before and nothing else. -/
theorem Carries.requests_of_silent (h : Carries f cd cr strategy done (some d) bytes ch s) (hidle : s.pending ≠ .idle)
    (hsilent : s.replies.drop done.length = []) : s.requests = done := by
  have hreplies := (h.serves.replied hidle).length_eq
  have hanswered := h.answered
  have hlen : s.replies.length ≤ done.length := List.drop_eq_nil_iff.mp hsilent
  have hprefix : s.requests <+: done :=
    List.prefix_of_prefix_length_le h.serves.requests (List.prefix_append _ _) (by omega)
  exact hprefix.eq_of_length (by omega)

/-- A session that has not replied can go on, or waits for bytes that are on their way. -/
theorem Carries.session_progress (h : Carries f cd cr strategy done (some d) bytes ch s) (hidle : s.pending ≠ .idle)
    (hsilent : s.replies.drop done.length = []) :
    s.pending.size ≤ ch.atServer.length ∨ Reading s.pending ∧ ch.toServer ≠ [] := by
  have hrequests := h.requests_of_silent hidle hsilent
  have haccepted : Accepted f cd d := (h.requests d (by simp)).1
  have hinbound := h.inbound
  rw [Option.toList_some, List.flatMap_append, List.flatMap_singleton] at hinbound
  cases hp : s.pending with
  | accept => exact absurd hp h.accepted
  | idle => exact absurd hp hidle
  | handshake => exact .inl (Nat.zero_le _)
  | write put => exact .inl (Nat.zero_le _)
  | readHeader =>
    obtain ⟨hbytes, -⟩ := h.serves.between (.inr (.inr (.inl hp)))
    rw [hbytes, hrequests, List.append_assoc, List.append_right_inj] at hinbound
    by_cases hway : ch.toServer = []
    · left
      rw [hway, List.append_nil] at hinbound
      rw [hinbound, Pending.size]
      exact headerLength_le_frame haccepted
    · exact .inr ⟨.inl rfl, hway⟩
  | readBody b =>
    obtain ⟨d', hnext, hbytes, hsize, -, -⟩ := h.serves.inside b hp
    rw [hrequests, Option.toList_some, List.prefix_append_right_inj] at hnext
    obtain rfl : d' = d := by simpa using hnext
    rw [hbytes, hrequests, frame] at hinbound
    simp only [List.append_assoc, List.append_right_inj] at hinbound
    by_cases hway : ch.toServer = []
    · left
      rw [hway, List.append_nil] at hinbound
      rw [hinbound, Pending.size, hsize]
    · exact .inr ⟨.inr ⟨b, rfl⟩, hway⟩

/-- **While an answer is awaited**, it has arrived, or it is on its way, or what the session waits for can be
completed, or bytes are on their way that the session reads. -/
theorem Carries.progress (h : Carries f cd cr strategy done (some d) bytes ch s) (hidle : s.pending ≠ .idle) :
    (∃ r, Accepted f cr r ∧ ch.atClient = frame f cr r) ∨ ch.toClient ≠ [] ∨
      s.pending.size ≤ ch.atServer.length ∨ Reading s.pending ∧ ch.toServer ≠ [] := by
  rcases h.reply with hsilent | ⟨r, hdrop, hreplied⟩
  · exact .inr (.inr (h.session_progress hidle hsilent))
  · have houtbound := h.outbound
    rw [hdrop, List.flatMap_singleton] at houtbound
    by_cases hway : ch.toClient = []
    · rw [hway, List.append_nil] at houtbound
      exact .inl ⟨r, hreplied.accepted, houtbound⟩
    · exact .inr (.inl hway)

/-- **Between two exchanges** nothing is on its way, and the session has received the requests so far and nothing
else, and reads a header next. -/
theorem Carries.settled (h : Carries f cd cr strategy done none bytes ch s) (hidle : s.pending ≠ .idle) :
    (ch.toServer = [] ∧ ch.atServer = [] ∧ ch.toClient = [] ∧ ch.atClient = []) ∧ s.requests = done ∧
      bytes = done.flatMap (frame f cd) ∧ HeaderNext s.pending := by
  obtain ⟨-, hserves, haccepted, hinbound, hanswered, houtbound⟩ := h
  rw [Option.toList_none, List.append_nil] at hserves hinbound
  have hreplies := (hserves.replied hidle).length_eq
  have hlen := hserves.requests.length_le
  have hrequests : s.requests = done := hserves.requests.eq_of_length (by omega)
  rw [List.drop_eq_nil_of_le (by omega), List.flatMap_nil, List.append_eq_nil_iff] at houtbound
  have hbetween : HeaderNext s.pending ∧ bytes = s.requests.flatMap (frame f cd) := by
    cases hp : s.pending with
    | accept => exact absurd hp haccepted
    | idle => exact absurd hp hidle
    | handshake => exact ⟨trivial, (hserves.between (.inr (.inl hp))).1⟩
    | readHeader => exact ⟨trivial, (hserves.between (.inr (.inr (.inl hp)))).1⟩
    | write put => exact ⟨trivial, (hserves.between (.inr (.inr (.inr ⟨put, hp⟩)))).1⟩
    | readBody b =>
      obtain ⟨d, hnext, -⟩ := hserves.inside b hp
      have hlonger := hnext.length_le
      rw [hrequests, List.length_append, List.length_singleton] at hlonger
      omega
  obtain ⟨hnext, hbytes⟩ := hbetween
  rw [hrequests] at hbytes
  rw [hbytes, List.append_assoc, List.append_right_eq_self, List.append_eq_nil_iff] at hinbound
  exact ⟨⟨hinbound.2, hinbound.1, houtbound.2, houtbound.1⟩, hrequests, hbytes, hnext⟩

end Link

/-! ## Steps in which nothing fails -/

def Whole (bytes : Bytes) : Prop :=
  match handleDetermineDataSize (bytes.take headerLength) with
  | some size => headerLength + size ≤ bytes.length
  | none => False

instance (bytes : Bytes) : Decidable (Whole bytes) := by
  unfold Whole
  split <;> infer_instance

def Label.received (j : Nat) : Label → Bytes
  | .completed k _ c => if k = j then c.received else []
  | _ => []

/-- The clock reads `now` if the step looks at it. -/
def Label.At (now : Int) : Label → Prop
  | .completed _ _ c => c.now = now
  | _ => True

def received (j : Nat) (ls : List Label) : Bytes := ls.flatMap (Label.received j)

theorem received_concat (j : Nat) (ls : List Label) (l : Label) :
    received j (ls ++ [l]) = received j ls ++ l.received j := by
  simp [received]

theorem received_concat_of_nil {j : Nat} {ls : List Label} {l : Label} (h : l.received j = []) :
    received j (ls ++ [l]) = received j ls := by
  rw [received_concat, h, List.append_nil]

def State.since (s : State) (n : Nat) : List ClientData := (s.threads.client.answered.drop n).map Prod.fst

def State.sending (s : State) : Option ClientData :=
  match s.threads.client.pc with
  | .sending d => some d
  | _ => none

section System
variable (f : Filter) (cd : Codec ClientData) (cr : Codec (Response ServerData)) (clientId : Bytes)
  (keepAlive secured : Bool)

namespace State

/-- A step, other than the opening of a connection, in which nothing fails on the one in use: the request is
written, decodes and has one of the four operations; a read returns with all bytes there; and the operations of
the session are completed without an error, with an answer whose frame is not too long. -/
def Faultless (s : State) : Label → Prop
  | .opened => False
  | .written k _ => ∀ d ∈ s.sending, Written f cd d k ∧ Decodes f cd d ∧ d.operation.Valid
  | .read _ => ∀ p ∈ newest s.channels, Whole p.2.atClient
  | .completed k _ c => ∀ p ∈ newest s.channels, k = p.1 → c.ec = none ∧
    ∀ d ∈ s.sending, ∀ data ∈ (serverAction c.now d).toOption, Accepted f cr (⟨.ok, data⟩ : Response ServerData)
  | _ => True

instance (s : State) (l : Label) : Decidable (s.Faultless f cd cr l) := by
  unfold Faultless
  split <;> infer_instance

/-- The reply to the request that is under way, if it is made now, has a frame that is not too long. -/
def ReplyFitsAt (now : Int) (s : State) : Prop :=
  ∀ d ∈ s.sending, ∀ data ∈ (serverAction now d).toOption, Accepted f cr (⟨.ok, data⟩ : Response ServerData)

def ReplyFits (s : State) : Prop :=
  ∀ d ∈ s.sending, ∀ now, ∀ data ∈ (serverAction now d).toOption, Accepted f cr (⟨.ok, data⟩ : Response ServerData)

/-- A step that takes the exchange on the connection in use further, without an error: bytes arrive that the
session or the client reads, the session is accepted, the operation it waits for is completed, or the client's
read. -/
def Productive (s : State) (l : Label) : Prop :=
  ∃ j ch, newest s.channels = some (j, ch) ∧ match l with
    | .toServer k n => k = j ∧ 0 < n ∧ ch.toServer ≠ [] ∧
      ∃ i t, ch.session = some i ∧ s.server.sessions[i]? = some t ∧ Reading t.pending
    | .toClient k n => k = j ∧ 0 < n ∧ ch.toClient ≠ []
    | .accepted k .. => k = j
    | .completed k _ c => k = j ∧ c.ec = none
    | .read _ => Whole ch.atClient
    | _ => False

end State

/-- Since there were `n` answers, connection `j` has carried whole exchanges of requests that the server can
answer, and the request in hand; its session goes on. -/
structure InStep (n j : Nat) (ls : List Label) (s : State) : Prop where
  count : n ≤ s.threads.client.answered.length
  regular : ∀ d ∈ s.since n ++ s.awaited.toList, Decodes f cd d ∧ d.operation.Valid
  tied : ∃ t, Tied f cd cr s.server s.channels j (s.since n) s.awaited (received j ls) t ∧ t.pending ≠ .idle

variable {f cd cr clientId keepAlive secured} {n j : Nat} {ls : List Label} {s s' : State} {l : Label}

theorem sending_eq_some {d : ClientData} (h : s.threads.client.pc = .sending d) : s.sending = some d := by
  rw [State.sending, h]

theorem whole_of_frame {r : Response ServerData} (h : Accepted f cr r) : Whole (frame f cr r) := by
  have htake : (frame f cr r).take headerLength = formatHeader (encode f cr r).length := by
    rw [frame, ← length_formatHeader h, List.take_left]
  rw [Whole, htake, handleDetermineDataSize_formatHeader h]
  show headerLength + (encode f cr r).length ≤ (frame f cr r).length
  rw [frame, List.length_append, length_formatHeader h]

theorem ec_of_whole {conn : Connection} {fresh : Response ServerData} {bytes : Bytes} {fault : Fault}
    {r : Connection.Read (Response ServerData)} (h : Whole bytes) (hread : conn.read f cr fresh ⟨[bytes], fault⟩ = .ok r) :
    r.ec = none := by
  have hbytes : (Source.mk [bytes] fault).bytes = bytes := by simp [Source.bytes]
  unfold Whole at h
  split at h
  swap
  · exact h.elim
  rename_i size hsize
  rw [← hbytes] at h hsize
  by_cases hfit : size ≤ vectorMaxSize
  · obtain ⟨s', -, -, hbody⟩ := Connection.read_body (f := f) (c := cr) conn (t := fresh) (by omega) hsize hfit
    rw [hread] at hbody
    obtain ⟨t, -, ht⟩ := bind_eq_ok.mp hbody.symm
    cases ht
    exact if_pos h
  · rw [Connection.read_large conn (by omega) hsize (by omega)] at hread
    cases hread

/-- Nothing fails in a step that takes the exchange further, if the reply fits that is made in it. -/
theorem State.Productive.faultless_at (h : s.Productive l) (now : Int) (hat : l.At now)
    (hfits : s.ReplyFitsAt f cr now) : s.Faultless f cd cr l := by
  obtain ⟨j, ch, hnewest, h⟩ := h
  cases l with
  | thread a => exact h.elim
  | opened => exact h.elim
  | written k fresh => exact h.elim
  | other e => exact h.elim
  | toServer k n => trivial
  | toClient k n => trivial
  | accepted k i cdata response => trivial
  | completed k i c =>
    obtain rfl : c.now = now := hat
    exact fun p hp hk => ⟨h.2, hfits⟩
  | read fault =>
    intro p hp
    obtain rfl : (j, ch) = p := Option.some.inj (hnewest.symm.trans hp)
    exact h

theorem State.Productive.faultless (h : s.Productive l) (hfits : s.ReplyFits f cr) : s.Faultless f cd cr l := by
  cases l with
  | completed k i c => exact h.faultless_at c.now rfl fun d hd => hfits d hd c.now
  | _ => exact h.faultless_at 0 trivial fun d hd => hfits d hd 0

/-! ## The invariant -/

theorem InStep.of_tied {done : List ClientData} {awaited : Option ClientData} {t : Session ClientData ServerData}
    (hcount : n ≤ s.threads.client.answered.length) (hsince : s.since n = done) (hawaited : s.awaited = awaited)
    (hregular : ∀ d ∈ done ++ awaited.toList, Decodes f cd d ∧ d.operation.Valid)
    (htied : Tied f cd cr s.server s.channels j done awaited (received j ls) t) (hidle : t.pending ≠ .idle) :
    InStep f cd cr n j ls s := by
  subst hsince hawaited
  exact ⟨hcount, hregular, t, htied, hidle⟩

theorem InStep.beside (h : InStep f cd cr n j ls s) (hanswered : s'.threads.client.answered = s.threads.client.answered)
    (hawaited : s'.awaited = s.awaited) (hreceived : l.received j = [])
    (htied : ∀ t, Tied f cd cr s.server s.channels j (s.since n) s.awaited (received j ls) t → t.pending ≠ .idle →
      ∃ t', Tied f cd cr s'.server s'.channels j (s.since n) s.awaited (received j ls) t' ∧ t'.pending ≠ .idle) :
    InStep f cd cr n j (ls ++ [l]) s' := by
  have hsince : s'.since n = s.since n := by rw [State.since, State.since, hanswered]
  obtain ⟨t, ht, hidle⟩ := h.tied
  refine ⟨by rw [hanswered]; exact h.count, ?_, ?_⟩
  · rw [hsince, hawaited]
    exact h.regular
  · rw [hsince, hawaited, received_concat_of_nil hreceived]
    exact htied t ht hidle

theorem sending_of_awaited {d : ClientData} (h : s.awaited = some d) :
    s.threads.client.pc = .sending d ∧ s.awaiting ≠ none := by
  unfold State.awaited at h
  split at h
  · rename_i hpc hawaiting
    cases h
    exact ⟨hpc, by simp [hawaiting]⟩
  · cases h

/-! ### The steps -/

theorem inStep_completed {k i : Nat} {c : Completion} {ch : Channel} {server : AsyncServer ClientData ServerData}
    (hinv : Invariant f cd cr s) (h : InStep f cd cr n j ls s)
    (hfaultless : s.Faultless f cd cr (.completed k i c)) (hch : s.channels[k]? = some ch)
    (hsession : ch.session = some i) (hpossible : s.server.Possible (.completed i c))
    (harrived : c.received <+: ch.atServer)
    (hserver : AsyncServer.Step f cd cr serverAction secured s.server (.completed i c) server) :
    InStep f cd cr n j (ls ++ [.completed k i c])
      (State.setChannel { s with server } k (ch.serve c.received (State.written server i))) := by
  obtain ⟨t, htied, hidle⟩ := h.tied
  refine ⟨h.count, h.regular, ?_⟩
  rw [received_concat]
  rcases tied_completed htied hinv.owned hch hsession hpossible harrived hserver with
    ⟨rfl, hfits, hprefix, t', ht', htied'⟩ | ⟨hne, htied'⟩
  swap
  · rw [Label.received, if_neg (Ne.symm hne), List.append_nil]
    exact ⟨t, htied', hidle⟩
  rw [Label.received, if_pos rfl]
  refine ⟨t', htied', ?_⟩
  obtain ⟨ch₀, hnewest, -, hcarries⟩ := htied
  obtain ⟨hec, hreply⟩ := hfaultless (j, ch₀) hnewest rfl
  refine Session.complete_continues hcarries.requests hcarries.serves hfits hprefix hec ?_ hidle ht'
  intro d data hnext hdata
  -- the session has replied to the requests before, so this is the one in hand
  have hawaited : s.awaited = some d := by
    have hreplies := (hcarries.serves.replied hidle).length_eq
    have hlen := hnext.length_le
    have hanswered := hcarries.answered
    cases hawaited : s.awaited with
    | none =>
      rw [hawaited] at hlen
      simp at hlen
      omega
    | some d' =>
      rw [hawaited] at hlen hnext
      simp at hlen
      have heq := hnext.eq_of_length (by simp; omega)
      rw [Option.toList_some] at heq
      rw [(List.append_singleton_inj.mp heq).2]
  exact hreply d (sending_eq_some (sending_of_awaited hawaited).1) data (by rw [hdata]; rfl)

theorem inStep_thread {a : Action} {threads : Threads} (hinv : Invariant f cd cr s)
    (h : s.threads.client.pc.Connected → InStep f cd cr n j ls s) (hlocal : isLocal a = true)
    (hthreads : s.threads.step clientId keepAlive a = some threads) (hpc : threads.client.pc.Connected) :
    InStep f cd cr n j (ls ++ [.thread a]) { s with threads } := by
  cases a with
  | scrape u =>
    obtain ⟨hsame, -, hanswered⟩ := pc_of_scrapes (Threads.scrapes_iff.mp hthreads)
    refine (h (hsame ▸ hpc)).beside hanswered ?_ rfl fun t ht hidle => ⟨t, ht, hidle⟩
    rw [State.awaited, State.awaited, hsame]
  | client m =>
    obtain ⟨client, hnext, rfl⟩ := Option.map_eq_some_iff.mp hthreads
    have hmoves := Thread.moves_of_next hnext
    cases m with
    | internal =>
      obtain ⟨hanswered, -, -⟩ := Thread.local_of_moves hmoves
      have hnone := hinv.agreed.awaiting_eq_none (Thread.not_sending_of_moves hmoves)
      refine (h (Thread.connected_of_moves hmoves hpc)).beside hanswered ?_ rfl fun t ht hidle => ⟨t, ht, hidle⟩
      rw [awaited_of_none hnone]
      exact awaited_of_none hnone
    | sent result => cases hlocal
    | opened result =>
      cases hmoves with
      | opened hopening => cases hlocal
      | notOpened hopening e => exact hpc.elim

theorem inStep_written {k : Sink} {fresh : Response ServerData} {d : ClientData} {j₀ : Nat} {ch : Channel}
    (h : InStep f cd cr n j ls s) (hfaultless : s.Faultless f cd cr (.written k fresh))
    (hsending : s.threads.client.pc = .sending d) (hawaiting : s.awaiting = none)
    (hnewest : newest s.channels = some (j₀, ch)) :
    InStep f cd cr n j (ls ++ [.written k fresh]) (State.setChannel { s with
      connection := (s.connection.write f cd d k).connection, awaiting := some fresh } j₀
        (ch.put (s.connection.write f cd d k).put)) := by
  obtain ⟨hwritten, hdecodes, hvalid⟩ := hfaultless d (sending_eq_some hsending)
  obtain ⟨hcount, hregular, t, htied, hidle⟩ := h
  rw [awaited_of_none hawaiting, Option.toList_none, List.append_nil] at hregular
  rw [awaited_of_none hawaiting] at htied
  refine .of_tied hcount rfl (awaited_of_some hsending rfl) ?_ ?_ hidle
  · intro d' hd'
    rcases List.mem_append.mp hd' with hd' | hd'
    · exact hregular d' hd'
    · obtain rfl : d' = d := by simpa using hd'
      exact ⟨hdecodes, hvalid⟩
  · rw [received_concat_of_nil rfl, write_written hwritten]
    exact tied_put htied hnewest hwritten.1 hdecodes.sound

theorem inStep_read {fault : Fault} {fresh : Response ServerData} {d : ClientData} {j₀ : Nat} {ch : Channel}
    {r : Connection.Read (Response ServerData)} (hresp : ∀ d r, Replied f cr serverAction d r → Sound f cr r)
    (hinv : Invariant f cd cr s) (h : InStep f cd cr n j ls s) (hfaultless : s.Faultless f cd cr (.read fault))
    (hsending : s.threads.client.pc = .sending d) (hawaiting : s.awaiting = some fresh)
    (hnewest : newest s.channels = some (j₀, ch))
    (hread : s.connection.read f cr fresh ⟨[ch.atClient], fault⟩ = .ok r) :
    InStep f cd cr n j (ls ++ [.read fault]) (State.setChannel { s with
      threads := { s.threads with client := s.threads.client.onSent ClientActions d (.ok (r.ec, r.value)) },
      awaiting := none, connection := r.connection } j₀ (ch.leave r.source.bytes)) := by
  obtain ⟨hcount, hregular, t, htied, hidle⟩ := h
  rw [awaited_of_some hsending hawaiting, Option.toList_some] at hregular
  rw [awaited_of_some hsending hawaiting] at htied
  have hec := ec_of_whole (hfaultless (j₀, ch) hnewest) hread
  obtain ⟨hreplied, htied⟩ := tied_read htied hnewest (hresp d) hread hec
  obtain ⟨-, hsent⟩ := onSent_of_replied hinv.agreed hsending hreplied
  rw [hec, hsent]
  have hsince : ((s.threads.client.answered ++ [(d, r.value)]).drop n).map Prod.fst = s.since n ++ [d] := by
    rw [List.drop_append_of_le_length hcount, List.map_append]
    rfl
  refine .of_tied (hcount.trans (by simp [State.setChannel])) hsince (awaited_of_none rfl) ?_ ?_ hidle
  · rwa [Option.toList_none, List.append_nil]
  · rw [received_concat_of_nil rfl]
    exact htied

/-- **Every step keeps the client and the session in step** in which nothing fails. -/
theorem inStep_steps (hresp : ∀ d r, Replied f cr serverAction d r → Sound f cr r)
    (hinv : Invariant f cd cr s)
    (h : s.threads.client.pc.Connected → InStep f cd cr n j ls s) (hfaultless : s.Faultless f cd cr l)
    (hsteps : State.Steps f cd cr clientId keepAlive secured s l s') (hup : s'.up = true)
    (hpc : s'.threads.client.pc.Connected) : InStep f cd cr n j (ls ++ [l]) s' := by
  cases hsteps with
  | thread a hlocal threads hthreads => exact inStep_thread hinv h hlocal hthreads hpc
  | opened threads hthreads => exact hfaultless.elim
  | written k fresh d hsending hawaiting j₀ ch hnewest hec =>
    exact inStep_written (h (by rw [hsending]; trivial)) hfaultless hsending hawaiting hnewest
  | notWritten k fresh d hsending hawaiting j₀ ch hnewest e hec threads hthreads =>
    obtain ⟨hwritten, -, -⟩ := hfaultless d (sending_eq_some hsending)
    rw [write_written hwritten] at hec
    cases hec
  | read fault fresh hawaiting j₀ ch hnewest r hread threads hthreads =>
    obtain ⟨d, hsending, rfl⟩ := client_of_sent hthreads
    exact inStep_read hresp hinv (h (by rw [hsending]; trivial)) hfaultless hsending hawaiting hnewest hread
  | readThrows fault fresh hawaiting j₀ ch hnewest e hread threads hthreads =>
    obtain ⟨d, -, rfl⟩ := client_of_sent hthreads
    exact hpc.elim
  | toServer k m ch hch =>
    refine (h hpc).beside rfl rfl rfl fun t ht hidle => ⟨t, ?_, hidle⟩
    exact tied_deliver ht hch rfl fun hcarries => carries_deliverToServer hcarries m
  | toClient k m ch hch =>
    refine (h hpc).beside rfl rfl rfl fun t ht hidle => ⟨t, ?_, hidle⟩
    exact tied_deliver ht hch rfl fun hcarries => carries_deliverToClient hcarries m
  | accepted k i cdata response ch hch hsession hacc server hserver =>
    refine (h hpc).beside rfl rfl rfl fun t ht hidle => ?_
    obtain ⟨t', htied, hpending⟩ := tied_accepted ht hinv.owned hch hsession hacc hserver
    refine ⟨t', htied, ?_⟩
    rcases hpending with rfl | hpending | hpending
    · exact hidle
    · simp [hpending]
    · simp [hpending]
  | completed k i c ch hch hsession hpossible harrived server hserver =>
    exact inStep_completed hinv (h hpc) hfaultless hch hsession hpossible harrived hserver
  | other e hown hpossible server hserver =>
    refine (h hpc).beside rfl rfl rfl fun t ht hidle => ⟨t, ?_, hidle⟩
    refine tied_server ht hserver fun j' ch i c hnewest hsession heq => ?_
    subst heq
    exact hown ⟨ch, List.mem_of_getElem? (newest_eq_some_iff.mp hnewest).1, hsession⟩
  | crashed l => cases hup

/-! ## Every run -/

theorem up_of_steps (hsteps : State.Steps f cd cr clientId keepAlive secured s l s') (hup : s'.up = true) :
    s.up = true := by
  cases hsteps with
  | crashed l => cases hup
  | _ => exact hup

theorem inStep_opened (hinv : Invariant f cd cr s)
    (hstep : StepOf (State.step f cd cr clientId keepAlive secured) s .opened s') :
    InStep f cd cr s'.threads.client.answered.length s.channels.length [] s' := by
  obtain ⟨threads, hthreads, rfl⟩ := State.follow_eq_some hstep
  obtain ⟨client, hnext, rfl⟩ := Option.map_eq_some_iff.mp hthreads
  cases Thread.moves_of_next hnext with
  | opened hpc =>
    obtain ⟨t, htied, hpending⟩ := tied_opened f cd cr s.server s.channels
    have hopening : s.threads.client.pc = .opening := hpc
    have hnone := hinv.agreed.awaiting_eq_none (by simp [hopening])
    exact .of_tied le_rfl (by simp [State.since]) (awaited_of_none hnone) (by simp) htied (by simp [hpending])

/-- **The client and the session stay in step** as long as nothing fails. -/
theorem inStep_run (hreq : ∀ d, ProperRequest d → Sound f cd d)
    (hresp : ∀ d r, Replied f cr serverAction d r → Sound f cr r) (hinv : Invariant f cd cr s)
    (h : s.threads.client.pc.Connected → InStep f cd cr n j [] s)
    (hruns : Runs (StepOf (State.step f cd cr clientId keepAlive secured)) s ls s')
    (hfaultless : Always (StepOf (State.step f cd cr clientId keepAlive secured)) (State.Faultless f cd cr) s ls)
    (hup : s'.up = true) :
    Invariant f cd cr s' ∧ (s'.threads.client.pc.Connected → InStep f cd cr n j ls s') := by
  have hboth : Invariant f cd cr s' ∧
      (s'.up = true → s'.threads.client.pc.Connected → InStep f cd cr n j ls s') :=
    hruns.invariant_of_always (I := fun ls t => Invariant f cd cr t ∧
        (t.up = true → t.threads.client.pc.Connected → InStep f cd cr n j ls t))
      hfaultless ⟨hinv, fun _ => h⟩ fun ls t l u ⟨hinv, h⟩ hl hstep => by
        have hsteps := State.steps_of_step hstep
        exact ⟨invariant_steps hreq hresp hinv hsteps, fun hup hpc =>
          inStep_steps hresp hinv (h (up_of_steps hsteps hup)) hl hsteps hup hpc⟩
  exact ⟨hboth.1, hboth.2 hup⟩

/-! ## Something to be done -/

section Enabled
variable {ch : Channel} {i : Nat} {t : Session ClientData ServerData} {d : ClientData}

variable (clientId keepAlive secured) in
theorem read_enabled (f : Filter) (cd : Codec ClientData) (cr : Codec (Response ServerData))
    {fresh : Response ServerData} (hpc : s.threads.client.pc = .sending d) (hawaiting : s.awaiting = some fresh)
    (hnewest : newest s.channels = some (j, ch)) (fault : Fault) :
    ∃ s', s.step f cd cr clientId keepAlive secured (.read fault) = some s' ∧ s'.up = s.up := by
  have hfollow : ∀ (u : State) (result : Except Exn (ErrorCode × Response ServerData)), u.threads = s.threads →
      ∃ s', u.follow clientId keepAlive (.client (.sent result)) = some s' ∧ s'.up = u.up := fun u result hu => by
    simp only [State.follow, hu, Threads.step, Thread.next, hpc, Option.map_some]
    exact ⟨_, rfl, rfl⟩
  simp only [State.step, hawaiting, hnewest]
  split
  · exact hfollow _ _ rfl
  · exact hfollow _ _ rfl

variable (f cd cr clientId keepAlive secured) in
theorem accepted_enabled (hwf : s.server.WellFormed) (hch : s.channels[j]? = some ch) (hsession : ch.session = none)
    (hup : s.up = true) (cdata : ClientData) (response : Response ServerData) :
    ∃ i s', s.step f cd cr clientId keepAlive secured (.accepted j i cdata response) = some s' ∧ s'.up = s.up := by
  obtain ⟨i, hacc, -⟩ := hwf.existsUnique_accepting
  have hserver := hacc
  obtain ⟨t, ht, hp⟩ := hserver
  refine ⟨i, ?_⟩
  simp only [State.step, hch, Option.bind_some, if_pos (And.intro hup (And.intro hsession hacc)),
    AsyncServer.step_accepted ht hp]
  exact ⟨_, rfl, rfl⟩

variable (clientId keepAlive) in
theorem completed_enabled {done : List ClientData} {awaited : Option ClientData} {bytes : Bytes}
    (hcarries : Carries f cd cr serverAction done awaited bytes ch t)
    (hregular : ∀ d ∈ done ++ awaited.toList, Decodes f cd d ∧ d.operation.Valid) (hidle : t.pending ≠ .idle)
    (hready : t.pending.size ≤ ch.atServer.length) (hch : s.channels[j]? = some ch) (hsession : ch.session = some i)
    (ht : s.server.sessions[i]? = some t) (hup : s.up = true) (now : Int) :
    ∃ c s', c.ec = none ∧ c.now = now ∧ s.step f cd cr clientId keepAlive secured (.completed j i c) = some s' ∧
      s'.up = s.up := by
  let c : Completion := ⟨ch.atServer.take t.pending.size, none, now⟩
  have harrived : c.received <+: ch.atServer := List.take_prefix _ _
  have hlen : c.received.length = t.pending.size := List.length_take_of_le hready
  have hfits : t.pending.Fits c := ⟨hlen.le, fun _ => hlen⟩
  have hpossible : s.server.Possible (.completed i c) := ⟨t, ht, hcarries.accepted, hidle, hfits⟩
  have hanswerable : ∀ d ∈ done ++ awaited.toList,
      Accepted f cd d ∧ Decodes f cd d ∧ ∀ now, ∃ data, serverAction now d = .ok data := fun d hd =>
    ⟨(hcarries.requests d hd).1, (hregular d hd).1, fun now => (serverAction_ok_iff now d).mpr (hregular d hd).2⟩
  obtain ⟨t', ht'⟩ := Session.complete_returns hanswerable hcarries.serves hfits (hcarries.starts harrived) fun _ => rfl
  refine ⟨c, ?_⟩
  simp only [State.step, hch, Option.bind_some,
    if_pos (And.intro hup (And.intro hsession (And.intro hpossible harrived))), AsyncServer.step_completed ht, ht',
    ok_bind]
  exact ⟨_, rfl, rfl, rfl, rfl⟩

variable (clientId keepAlive secured) in
/-- **While the client awaits a response something can be done** that takes the exchange further, whatever the clock
reads. -/
theorem exists_productive_at (hinv : Invariant f cd cr s) (h : InStep f cd cr n j ls s) (hawaiting : s.awaiting ≠ none)
    (hup : s.up = true) (now : Int) :
    ∃ l s', s.Productive l ∧ l.At now ∧ s.step f cd cr clientId keepAlive secured l = some s' ∧ s'.up = true := by
  obtain ⟨d, hpc⟩ := hinv.agreed.awaiting hawaiting
  obtain ⟨fresh, hfresh⟩ := Option.ne_none_iff_exists'.mp hawaiting
  obtain ⟨-, hregular, t, ⟨ch, hnewest, hpartner, hcarries⟩, hidle⟩ := h
  rw [awaited_of_some hpc hfresh] at hregular hcarries
  have hch := (newest_eq_some_iff.mp hnewest).1
  have haccept : ch.session = none → ∃ l s', s.Productive l ∧ l.At now ∧
      s.step f cd cr clientId keepAlive secured l = some s' ∧ s'.up = true := fun hsession => by
    obtain ⟨i, s', hstep, hup'⟩ := accepted_enabled f cd cr clientId keepAlive secured hinv.owned.wellFormed hch hsession
      hup blankRequest blankResponse
    exact ⟨.accepted j i blankRequest blankResponse, s', ⟨j, ch, hnewest, rfl⟩, trivial, hstep, hup'.trans hup⟩
  rcases hcarries.progress hidle with ⟨r, haccepted, harrived⟩ | hway | hready | ⟨hreading, hway⟩
  · obtain ⟨s', hstep, hup'⟩ := read_enabled clientId keepAlive secured f cd cr hpc hfresh hnewest .eof
    exact ⟨.read .eof, s', ⟨j, ch, hnewest, harrived ▸ whole_of_frame haccepted⟩, trivial, hstep, hup'.trans hup⟩
  · exact ⟨.toClient j 1, s.setChannel j (ch.deliverToClient 1), ⟨j, ch, hnewest, rfl, Nat.one_pos, hway⟩, trivial,
      by rw [State.step, hch, Option.map_some], hup⟩
  · cases hsession : ch.session with
    | none => exact haccept hsession
    | some i =>
      rw [partner_some hsession] at hpartner
      obtain ⟨c, s', hec, hnow, hstep, hup'⟩ := completed_enabled clientId keepAlive hcarries hregular hidle hready hch
        hsession hpartner hup now
      exact ⟨.completed j i c, s', ⟨j, ch, hnewest, rfl, hec⟩, hnow, hstep, hup'.trans hup⟩
  · cases hsession : ch.session with
    | none => exact haccept hsession
    | some i =>
      rw [partner_some hsession] at hpartner
      exact ⟨.toServer j 1, s.setChannel j (ch.deliverToServer 1),
        ⟨j, ch, hnewest, rfl, Nat.one_pos, hway, i, t, hsession, hpartner, hreading⟩, trivial,
        by rw [State.step, hch, Option.map_some], hup⟩

theorem exists_productive (hinv : Invariant f cd cr s) (h : InStep f cd cr n j ls s) (hawaiting : s.awaiting ≠ none)
    (hup : s.up = true) :
    ∃ l s', s.Productive l ∧ s.step f cd cr clientId keepAlive secured l = some s' ∧ s'.up = true := by
  obtain ⟨l, s', hproductive, -, hstep, hup'⟩ := exists_productive_at clientId keepAlive secured hinv h hawaiting hup 0
  exact ⟨l, s', hproductive, hstep, hup'⟩

end Enabled

end System

/-! ## The calculator -/

section Calculator
variable {z : Zlib} {compressed : Bool} {ar : TextArchive}

/-- **No deadlock**, in every run since a connection was opened in whose steps nothing fails on it: while the
client awaits a response, a step is possible that takes the exchange further and in which nothing fails; and between
two exchanges nothing is left over in either direction, the session has received the frames of the requests
answered since then and nothing else, and the next it reads is a header. -/
theorem no_deadlock (hz : compressed = true → z.Lawful) (har : ar.Lawful) {clientId : Bytes}
    {keepAlive secured : Bool} {is : IStream} {padding : Padding} {connection : Connection} {cdata : ClientData}
    {response : Response ServerData} {before ls : List Label} {s₁ s : State}
    (hopened : Runs (StepOf (State.step (createFilter z compressed) (requestCodec ar) (responseCodec ar) clientId
      keepAlive secured)) (.init is padding connection cdata response) (before ++ [.opened]) s₁)
    (hrun : Runs (StepOf (State.step (createFilter z compressed) (requestCodec ar) (responseCodec ar) clientId
      keepAlive secured)) s₁ ls s)
    (hfaultless : Always (StepOf (State.step (createFilter z compressed) (requestCodec ar) (responseCodec ar) clientId
      keepAlive secured)) (State.Faultless (createFilter z compressed) (requestCodec ar) (responseCodec ar)) s₁ ls)
    (hup : s.up = true) :
    (s.awaiting ≠ none → ∃ l s', s.Productive l ∧ (s.ReplyFits (createFilter z compressed) (responseCodec ar) →
        s.Faultless (createFilter z compressed) (requestCodec ar) (responseCodec ar) l) ∧
      s.step (createFilter z compressed) (requestCodec ar) (responseCodec ar) clientId keepAlive secured l = some s' ∧
      s'.up = true) ∧
    (s.awaiting = none → s.threads.client.pc.Connected → ∃ j ch t, newest s.channels = some (j, ch) ∧
      Partner s.server ch t ∧ ch.toServer = [] ∧ ch.atServer = [] ∧ ch.toClient = [] ∧ ch.atClient = [] ∧
      t.requests = s.since s₁.threads.client.answered.length ∧
      received j ls = t.requests.flatMap (frame (createFilter z compressed) (requestCodec ar)) ∧
      HeaderNext t.pending) := by
  have hreq : ∀ d, ProperRequest d → Sound (createFilter z compressed) (requestCodec ar) d :=
    fun d hd => request_sound hz har hd.1 hd.2
  have hresp : ∀ d r, Replied (createFilter z compressed) (responseCodec ar) serverAction d r →
      Sound (createFilter z compressed) (responseCodec ar) r := fun d r hr => sound_of_replied hz har hr
  obtain ⟨s₀, hrun₀, hstep⟩ := runs_snoc_iff.mp hopened
  have hinv₀ := invariant_run hreq hresp hrun₀
  have hinv₁ := invariant_steps hreq hresp hinv₀ (State.steps_of_step hstep)
  obtain ⟨hinv, hinStep⟩ :=
    inStep_run hreq hresp hinv₁ (fun _ => inStep_opened hinv₀ hstep) hrun hfaultless hup
  constructor
  · intro hawaiting
    obtain ⟨d, hpc⟩ := hinv.agreed.awaiting hawaiting
    obtain ⟨l, s', hproductive, hstep, hup'⟩ :=
      exists_productive hinv (hinStep (by rw [hpc]; trivial)) hawaiting hup
    exact ⟨l, s', hproductive, hproductive.faultless, hstep, hup'⟩
  · intro hnone hpc
    obtain ⟨-, -, t, ⟨ch, hnewest, hpartner, hcarries⟩, hidle⟩ := hinStep hpc
    rw [awaited_of_none hnone] at hcarries
    obtain ⟨⟨htoServer, hatServer, htoClient, hatClient⟩, hrequests, hbytes, hnext⟩ := hcarries.settled hidle
    exact ⟨_, ch, t, hnewest, hpartner, htoServer, hatServer, htoClient, hatClient, hrequests,
      hrequests ▸ hbytes, hnext⟩

/-! ### A second request -/

def twoScraped : List Label := List.replicate 10 (.thread (.scrape .zero))

/-- The first request is answered, in pieces, and the beginning of the second one has arrived. -/
def secondAwaited : List Label :=
  List.replicate 2 (Label.thread (.client .internal)) ++
    [Label.written ⟨none, .eof⟩ blankResponse, .toServer 0 3, .accepted 0 0 blankRequest blankResponse,
      .toServer 0 5000, .completed 0 0 ⟨sumFrame.take 8, none, 0⟩, .completed 0 0 ⟨sumFrame.drop 8, none, 5⟩,
      .toClient 0 10, .toClient 0 5000, .read .eof] ++
    List.replicate 5 (Label.thread (.client .internal)) ++
    [Label.written ⟨none, .eof⟩ blankResponse, .toServer 0 3]

def plainStep : State → Label → Option State :=
  State.step (createFilter ⟨id, .ok⟩ false) (requestCodec plainArchive) (responseCodec plainArchive) [ch 'a'] false false

def twoLines : State :=
  .init (.ofText (sumLine ++ newline :: sumLine ++ [newline])) (.replicate 0) .fresh blankRequest blankResponse

theorem no_deadlock_second_awaited :
    ∃ s₁ s, Runs (StepOf plainStep) twoLines (twoScraped ++ [.opened]) s₁ ∧
      Runs (StepOf plainStep) s₁ secondAwaited s ∧ s.threads.client.answered.length = 1 ∧ s.awaiting.isSome = true ∧
      (s.awaiting ≠ none → ∃ l s', s.Productive l ∧
        (s.ReplyFits (createFilter ⟨id, .ok⟩ false) (responseCodec plainArchive) →
          s.Faultless (createFilter ⟨id, .ok⟩ false) (requestCodec plainArchive) (responseCodec plainArchive) l) ∧
        plainStep s l = some s' ∧ s'.up = true) ∧
      (s.awaiting = none → s.threads.client.pc.Connected → ∃ j ch t, newest s.channels = some (j, ch) ∧
        Partner s.server ch t ∧ ch.toServer = [] ∧ ch.atServer = [] ∧ ch.toClient = [] ∧ ch.atClient = [] ∧
        t.requests = s.since s₁.threads.client.answered.length ∧
        received j secondAwaited = t.requests.flatMap (frame (createFilter ⟨id, .ok⟩ false) (requestCodec plainArchive)) ∧
        HeaderNext t.pending) := by
  have hplay : (play plainStep twoLines (twoScraped ++ [.opened])).any (fun s₁ =>
      (play (guarded plainStep (State.Faultless (createFilter ⟨id, .ok⟩ false) (requestCodec plainArchive)
        (responseCodec plainArchive))) s₁ secondAwaited).any fun s =>
          s.up && decide (s.threads.client.answered.length = 1) && s.awaiting.isSome) = true := by decide +kernel
  obtain ⟨s₁, hs₁, hrest⟩ := (Option.any_eq_true _ _).mp hplay
  obtain ⟨s, hs, hlast⟩ := (Option.any_eq_true _ _).mp hrest
  simp only [Bool.and_eq_true, decide_eq_true_eq] at hlast
  obtain ⟨⟨hup, hone⟩, hsome⟩ := hlast
  obtain ⟨hrun, hfaultless⟩ := runs_of_play_guarded hs
  exact ⟨s₁, s, runs_of_play hs₁, hrun, hone, hsome,
    no_deadlock (by simp) plainArchive_lawful (runs_of_play hs₁) hrun hfaultless hup⟩

end Calculator

end TCPClientServer.System
