import TCPClientServer.Client.Connector
import TCPClientServer.Server.Order

/-!
# A connection and its session

The client writes a request, the session reads and answers it, and the client reads the answer before it
writes again. The bytes of both directions are on their way for a while, and arrive in pieces.

* `Channel` : the bytes that are on their way or have arrived, in both directions;
* `Carries` : every byte is accounted for; at most one request is awaiting its answer;
* `carries_put`, `carries_read`, `carries_deliverToServer`, `carries_deliverToClient`, `carries_accept`,
  `carries_complete` : the steps of the client, the network and the server keep it;
* `Carries.reply` : the answer read is the reply to the request awaited.
-/

namespace TCPClientServer.System
open TCPClientServer.Basis TCPClientServer.Io TCPClientServer.Server TCPClientServer.Client

/-- A connection: the session that has been accepted on it, and the bytes put on it and not yet received, those
on their way and those that have arrived. -/
structure Channel where
  session : Option Nat
  toServer : Bytes
  atServer : Bytes
  toClient : Bytes
  atClient : Bytes
deriving DecidableEq

namespace Channel

def empty : Channel := ⟨none, [], [], [], []⟩

def accept (ch : Channel) (i : Nat) : Channel := { ch with session := some i }

def put (ch : Channel) (bytes : Bytes) : Channel := { ch with toServer := ch.toServer ++ bytes }

def deliverToServer (ch : Channel) (n : Nat) : Channel :=
  { ch with toServer := ch.toServer.drop n, atServer := ch.atServer ++ ch.toServer.take n }

def deliverToClient (ch : Channel) (n : Nat) : Channel :=
  { ch with toClient := ch.toClient.drop n, atClient := ch.atClient ++ ch.toClient.take n }

def serve (ch : Channel) (received written : Bytes) : Channel :=
  { ch with atServer := ch.atServer.drop received.length, toClient := ch.toClient ++ written }

def leave (ch : Channel) (left : Bytes) : Channel := { ch with atClient := left }

end Channel

section Link
variable {D A : Type}

def output (s : Session D A) : Bytes :=
  match s.pending with
  | .write frame => frame
  | _ => []

variable (f : Filter) (cd : Codec D) (cr : Codec (Response A)) (strategy : Int → D → Except Exn A)

/-- The client has put the frames of `done` on the connection and read the replies to them, and then put the
frame of the request it awaits an answer to. The session has received `bytes`. -/
structure Carries (done : List D) (awaited : Option D) (bytes : Bytes) (ch : Channel) (s : Session D A) : Prop where
  requests : ∀ d ∈ done ++ awaited.toList, Accepted f cd d ∧ Sound f cd d
  serves : s.Serves f cd cr strategy (done ++ awaited.toList) bytes
  accepted : s.pending ≠ .accept
  inbound : bytes ++ ch.atServer ++ ch.toServer = (done ++ awaited.toList).flatMap (frame f cd)
  answered : done.length ≤ s.replies.length
  outbound : ch.atClient ++ ch.toClient = (s.replies.drop done.length).flatMap (frame f cr)

variable {f cd cr strategy} {done : List D} {awaited : Option D} {bytes : Bytes} {ch : Channel} {s t : Session D A}
  {c : Completion} {d : D}

theorem carries_new (hreq : s.requests = []) (hreplies : s.replies = []) (hp : s.pending = .readHeader) :
    Carries f cd cr strategy [] none [] .empty s where
  requests := by simp
  serves := .of_between (by simp [hreq]) (by simp [hreq]) (by rw [hreq, hreplies]; exact .nil) (by simp [hp])
    (by simp [hp])
  accepted := by simp [hp]
  inbound := rfl
  answered := Nat.zero_le _
  outbound := by simp [hreplies, Channel.empty]

theorem carries_accept (h : Carries f cd cr strategy done awaited bytes ch s) (hreq : s.requests = [])
    (hreplies : s.replies = []) (hp : s.pending = .readHeader) (hreq' : t.requests = []) (hreplies' : t.replies = [])
    (hp' : t.pending ≠ .accept) (hbody : ∀ b, t.pending ≠ .readBody b) (hwrite : ∀ put, t.pending ≠ .write put)
    (i : Nat) : Carries f cd cr strategy done awaited bytes (ch.accept i) t where
  requests := h.requests
  serves := by
    obtain ⟨hbytes, -⟩ := h.serves.between (.inr (.inr (.inl hp)))
    rw [hreq] at hbytes
    exact .of_between (by simp [hreq']) (by rw [hbytes, hreq']) (by rw [hreq', hreplies']; exact .nil) hbody
      fun put hput => absurd hput (hwrite put)
  accepted := hp'
  inbound := h.inbound
  answered := by
    rw [hreplies', ← hreplies]
    exact h.answered
  outbound := by
    rw [hreplies', ← hreplies]
    exact h.outbound

/-! ## The network -/

theorem carries_deliverToServer (h : Carries f cd cr strategy done awaited bytes ch s) (n : Nat) :
    Carries f cd cr strategy done awaited bytes (ch.deliverToServer n) s where
  requests := h.requests
  serves := h.serves
  accepted := h.accepted
  inbound := by
    rw [← h.inbound, Channel.deliverToServer]
    simp only [List.append_assoc, List.take_append_drop]
  answered := h.answered
  outbound := h.outbound

theorem carries_deliverToClient (h : Carries f cd cr strategy done awaited bytes ch s) (n : Nat) :
    Carries f cd cr strategy done awaited bytes (ch.deliverToClient n) s where
  requests := h.requests
  serves := h.serves
  accepted := h.accepted
  inbound := h.inbound
  answered := h.answered
  outbound := by
    rw [← h.outbound, Channel.deliverToClient]
    simp only [List.append_assoc, List.take_append_drop]

/-! ## The session -/

/-- What the session has received and what has arrived for it are the beginning of the client's frames. -/
theorem Carries.starts (h : Carries f cd cr strategy done awaited bytes ch s) {arrived : Bytes}
    (harrived : arrived <+: ch.atServer) : bytes ++ arrived <+: (done ++ awaited.toList).flatMap (frame f cd) := by
  obtain ⟨later, hlater⟩ := harrived
  exact ⟨later ++ ch.toServer, by rw [← h.inbound, ← hlater]; simp⟩

/-- A handler puts the frame of one more reply on the connection, or nothing. -/
theorem output_of_handled (h : Session.Handled f cr s t) :
    ∃ rs, t.replies = s.replies ++ rs ∧ output t = rs.flatMap (frame f cr) := by
  rcases h.replies with ⟨hreplies, hwrite⟩ | ⟨r, hreplies, hwrite⟩
  · refine ⟨[], by rw [hreplies, List.append_nil], ?_⟩
    unfold output
    split
    · rename_i put hput
      exact absurd hput (hwrite put)
    · rfl
  · exact ⟨[r], hreplies, by simp [output, hwrite]⟩

/-- **A handler of the session** that receives what has arrived. -/
theorem carries_complete (h : Carries f cd cr strategy done awaited bytes ch s) (hfits : s.pending.Fits c)
    (harrived : c.received <+: ch.atServer) (ht : s.complete f cd cr strategy c = .ok t) :
    Carries f cd cr strategy done awaited (bytes ++ c.received) (ch.serve c.received (output t)) t := by
  have hhandled := Session.handled_complete h.accepted ht
  obtain ⟨rs, hreplies, houtput⟩ := output_of_handled hhandled
  have hprefix := h.starts harrived
  obtain ⟨later, hlater⟩ := harrived
  constructor
  · exact h.requests
  · exact Session.serves_complete h.requests h.serves hfits hprefix ht
  · exact hhandled.accept
  · rw [← h.inbound, Channel.serve, ← hlater, List.drop_left]
    simp
  · rw [hreplies, List.length_append]
    exact h.answered.trans (Nat.le_add_right _ _)
  · rw [hreplies, List.drop_append_of_le_length h.answered, List.flatMap_append, ← h.outbound, Channel.serve,
      houtput, List.append_assoc]

/-! ## The client -/

theorem Serves.mono {ds ds' : List D} (h : s.Serves f cd cr strategy ds bytes) (hds : ds <+: ds') :
    s.Serves f cd cr strategy ds' bytes where
  requests := h.requests.trans hds
  arrived := h.arrived
  between := h.between
  inside b hb := by
    obtain ⟨d, hnext, hbytes, hsize, hdata, hreplies⟩ := h.inside b hb
    exact ⟨d, hnext.trans hds, hbytes, hsize, hdata, hreplies⟩
  writing := h.writing
  ended := h.ended

/-- **The client puts its next request on the connection.** -/
theorem carries_put (h : Carries f cd cr strategy done none bytes ch s) (haccepted : Accepted f cd d)
    (hsound : Sound f cd d) : Carries f cd cr strategy done (some d) bytes (ch.put (frame f cd d)) s := by
  have hds : done ++ (none : Option D).toList = done := by simp
  obtain ⟨hrequests, hserves, hp, hinbound, hanswered, houtbound⟩ := h
  rw [hds] at hrequests hserves hinbound
  constructor
  · intro d' hd'
    rcases List.mem_append.mp hd' with hd' | hd'
    · exact hrequests d' hd'
    · obtain rfl : d' = d := by simpa using hd'
      exact ⟨haccepted, hsound⟩
  · exact Serves.mono hserves (List.prefix_append _ _)
  · exact hp
  · rw [List.flatMap_append, ← hinbound, Channel.put]
    simp
  · exact hanswered
  · exact houtbound

/-- The replies that the client has not read are none, or the one to the request awaited. -/
theorem Carries.reply (h : Carries f cd cr strategy done (some d) bytes ch s) :
    s.replies.drop done.length = [] ∨ ∃ r, s.replies.drop done.length = [r] ∧ Replied f cr strategy d r := by
  have hlen := h.serves.requests.length_le
  simp only [Option.toList_some, List.length_append, List.length_singleton] at hlen
  rcases h.serves.replies with hreplies | ⟨before, d', hreq, hreplies⟩
  · have hcount := hreplies.length_eq
    by_cases hfull : s.requests.length = done.length + 1
    · right
      have hreq : s.requests = done ++ [d] := h.serves.requests.eq_of_length (by simpa using hfull)
      have hlast := List.forall₂_drop done.length hreplies
      rw [hreq, List.drop_left] at hlast
      obtain ⟨r, rs, hreplied, hnil, hdrop⟩ := List.forall₂_cons_left_iff.mp hlast
      cases hnil
      exact ⟨r, hdrop, hreplied⟩
    · left
      exact List.drop_eq_nil_of_le (by omega)
  · left
    have hcount := hreplies.length_eq
    rw [hreq, List.length_append, List.length_singleton] at hlen
    exact List.drop_eq_nil_of_le (by omega)

/-- **The client reads the reply to its request**, if its read ends well. -/
theorem carries_read {conn : Connection} {fresh : Response A} {fault : Fault} {r : Connection.Read (Response A)}
    (h : Carries f cd cr strategy done (some d) bytes ch s)
    (hsound : ∀ r, Replied f cr strategy d r → Sound f cr r)
    (hread : conn.read f cr fresh ⟨[ch.atClient], fault⟩ = .ok r) (hec : r.ec = none) :
    Replied f cr strategy d r.value ∧
      Carries f cd cr strategy (done ++ [d]) none bytes (ch.leave r.source.bytes) s := by
  have hbytes : (Source.mk [ch.atClient] fault).bytes = ch.atClient := by simp [Source.bytes]
  have houtbound := h.outbound
  rcases h.reply with hnone | ⟨reply, hdrop, hreplied⟩
  · rw [hnone, List.flatMap_nil, List.append_eq_nil_iff] at houtbound
    obtain ⟨r', hread', hec', -⟩ := Connection.read_header_fault (f := f) (c := cr) conn (t := fresh)
      (s := ⟨[ch.atClient], fault⟩) (by rw [hbytes, houtbound.1]; decide)
    rw [hread] at hread'
    cases hread'
    simp [hec'] at hec
  rw [hdrop, List.flatMap_singleton] at houtbound
  obtain ⟨hwhole, hdecode, hleft⟩ := Connection.frame_of_read conn fresh hreplied.accepted
    (by rw [hbytes]; exact ⟨ch.toClient, houtbound⟩) hread hec
  obtain rfl := hsound reply hreplied _ hdecode
  have hlen : s.replies.length = done.length + 1 := by
    have hcount := congrArg List.length hdrop
    rw [List.length_drop, List.length_singleton] at hcount
    omega
  rw [hbytes] at hwhole
  rw [← hwhole, List.append_right_eq_self] at houtbound
  refine ⟨hreplied, ?_⟩
  constructor
  · simpa using h.requests
  · simpa using h.serves
  · exact h.accepted
  · simpa [Channel.leave] using h.inbound
  · rw [List.length_append, List.length_singleton, hlen]
  · rw [List.length_append, List.length_singleton, List.drop_eq_nil_of_le hlen.le, Channel.leave, hleft, houtbound]
    rfl

end Link

end TCPClientServer.System
