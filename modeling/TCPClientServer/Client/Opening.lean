import TCPClientServer.Client.Thread

/-!
# Opening a connection

`Connector::open` tries the endpoints one after another until one of them accepts, and a secured connection shakes
hands with that one. What the resolver, the endpoints and the calls of the context come to is left open.

* `SslOptions`, `createIo` : the socket IO of a connection, and its context;
* `AsioConnect`, `AsioConnect.Documented` : `boost::asio::connect`, a parameter, and what is documented of it;
* `SocketIo.connect`, `openConnection`, `startOpening` : from the endpoints to the loop in `start`;
* `OpensWith` : how an opening ends; `startOpening_iff`;
* `Happening`, `EndsWith` : what happens to the client, and what brings it to its end; `client_ends_iff`.
-/

namespace TCPClientServer.Client
open TCPClientServer.Basis TCPClientServer.Io TCPClientServer.Server

/-! ## The socket IO -/

/-- `ssl_mode`, and the values that it does not name. -/
inductive SslMode where
  | off
  | sslv23
  | sslv3
  | unnamed
deriving DecidableEq

inductive Side where
  | client
  | server
deriving DecidableEq

structure SslOptions where
  mode : SslMode
  contextOptions : Nat
  verifyMode : Nat
  certificatePath : Bytes
  certificateFilename : Bytes
  privateKeyFilename : Bytes
  dhFilename : Bytes

inductive Method where
  | sslv23
  | sslv3
deriving DecidableEq

inductive ContextCall where
  | context (method : Method)
  | setOptions (options : Nat)
  | loadVerifyFile (pathname : Bytes)
  | setPasswordCallback
  | useCertificateChainFile (pathname : Bytes)
  | usePrivateKeyFile (pathname : Bytes)
  | useTmpDhFile (pathname : Bytes)
  | setVerifyMode (mode : Nat)
  | setVerifyCallback
deriving DecidableEq

namespace SslOptions
variable (o : SslOptions)

def getMethod : Except Exn Method :=
  match o.mode with
  | .off => .error .runtimeError
  | .sslv23 => .ok .sslv23
  | .sslv3 => .ok .sslv3
  | .unnamed => .error .runtimeError

def getFullPathname (filename : Bytes) : Bytes := o.certificatePath ++ ch '/' :: filename

/-- The calls of `get_ssl_context` behind `get_method`; `singleDhUse` is the bit of that name. -/
def contextCalls (singleDhUse : Nat) (method : Method) : List ContextCall :=
  [.context method, .setOptions o.contextOptions] ++
    (if o.certificateFilename.isEmpty then [] else [.loadVerifyFile (o.getFullPathname o.certificateFilename)]) ++
    (if o.privateKeyFilename.isEmpty then [] else
      [.setPasswordCallback, .useCertificateChainFile (o.getFullPathname o.certificateFilename),
        .usePrivateKeyFile (o.getFullPathname o.privateKeyFilename)]) ++
    if o.contextOptions &&& singleDhUse = 0 then [] else [.useTmpDhFile (o.getFullPathname o.dhFilename)]

/-- `setup_socket`. -/
def setupCalls (s : Side) : List ContextCall :=
  match s with
  | .client => [.setVerifyMode o.verifyMode, .setVerifyCallback]
  | .server => []

end SslOptions

/-- Calls one after another; the first one that fails throws. -/
def performCalls (fails : ContextCall → ErrorCode) : List ContextCall → Except Exn Unit
  | [] => .ok ()
  | c :: cs =>
    match fails c with
    | some e => .error (.systemError e)
    | none => performCalls fails cs

/-- The two implementations of `IO_base`. -/
inductive SocketIo where
  | unsecured
  | ssl
deriving DecidableEq

/-- The constructor of `SSL_IO`. -/
def createSslIo (singleDhUse : Nat) (fails : ContextCall → ErrorCode) (o : SslOptions) (s : Side) :
    Except Exn SocketIo := do
  let method ← o.getMethod
  performCalls fails (o.contextCalls singleDhUse method)
  performCalls fails (o.setupCalls s)
  return .ssl

def createIo (singleDhUse : Nat) (fails : ContextCall → ErrorCode) (o : SslOptions) (s : Side) : Except Exn SocketIo :=
  match o.mode with
  | .off => .ok .unsecured
  | .sslv23 | .sslv3 => createSslIo singleDhUse fails o s
  | .unnamed => .error .runtimeError

section Creation
variable {singleDhUse : Nat} {fails : ContextCall → ErrorCode} {o : SslOptions} {s : Side} {io : SocketIo}

theorem performCalls_throws {calls : List ContextCall} {e : Exn} (h : performCalls fails calls = .error e) :
    ∃ c ∈ calls, ∃ fault, fails c = some fault ∧ e = .systemError fault := by
  induction calls with
  | nil => cases h
  | cons c calls ih =>
    rw [performCalls] at h
    cases hc : fails c with
    | some fault =>
      rw [hc] at h
      cases h
      exact ⟨c, List.mem_cons_self, fault, hc, rfl⟩
    | none =>
      rw [hc] at h
      obtain ⟨c', hmem, hfault⟩ := ih h
      exact ⟨c', List.mem_cons_of_mem c hmem, hfault⟩

/-- **The mode selects the socket IO.** -/
theorem createIo_ok (h : createIo singleDhUse fails o s = .ok io) : io = .ssl ↔ o.mode ≠ .off := by
  have hssl : createSslIo singleDhUse fails o s = .ok io → io = .ssl := by
    intro h
    obtain ⟨method, -, h⟩ := bind_eq_ok.mp h
    obtain ⟨-, -, h⟩ := bind_eq_ok.mp h
    obtain ⟨-, -, h⟩ := bind_eq_ok.mp h
    cases h
    rfl
  rw [createIo] at h
  cases hmode : o.mode with
  | off =>
    rw [hmode] at h
    cases h
    simp
  | unnamed => simp [hmode] at h
  | _ =>
    rw [hmode] at h
    simp [hssl h]

/-- Creating the socket IO throws for a mode without a name, or what a call throws: that no context is set up for the
mode that is off is tested twice, and the second test never throws. -/
theorem createIo_throws {e : Exn} (h : createIo singleDhUse fails o s = .error e) :
    (o.mode = .unnamed ∧ e = .runtimeError) ∨ ∃ c fault, fails c = some fault ∧ e = .systemError fault := by
  have hssl : ∀ method, o.getMethod = .ok method → createSslIo singleDhUse fails o s = .error e →
      ∃ c fault, fails c = some fault ∧ e = .systemError fault := by
    intro method hmethod h
    rw [createSslIo, hmethod, ok_bind] at h
    rcases bind_eq_error.mp h with h | ⟨-, -, h⟩
    · obtain ⟨c, -, hc⟩ := performCalls_throws h
      exact ⟨c, hc⟩
    rcases bind_eq_error.mp h with h | ⟨-, -, h⟩
    · obtain ⟨c, -, hc⟩ := performCalls_throws h
      exact ⟨c, hc⟩
    · cases h
  rw [createIo] at h
  cases hmode : o.mode with
  | off => simp [hmode] at h
  | unnamed =>
    rw [hmode] at h
    cases h
    exact .inl ⟨rfl, rfl⟩
  | sslv23 =>
    rw [hmode] at h
    exact .inr (hssl .sslv23 (by simp [SslOptions.getMethod, hmode]) h)
  | sslv3 =>
    rw [hmode] at h
    exact .inr (hssl .sslv3 (by simp [SslOptions.getMethod, hmode]) h)

end Creation

/-! ## Connecting -/

/-- An endpoint as an attempt finds it: how connecting to it ends, and the handshake with it. -/
structure Endpoint where
  connect : ErrorCode
  handshake : ErrorCode
deriving DecidableEq

/-- `boost::asio::error::not_found`. -/
def notFound : Fault := .other 3

/-- `boost::asio::connect` of a range: the iterator, as what is left of the range from where it stands, and the error
code. -/
abbrev AsioConnect := List Endpoint → List Endpoint × ErrorCode

/-- What is documented of `boost::asio::connect`: the iterator refers to the first endpoint that accepts; when none does
it is the end, and the error code is that of the last attempt, or `not_found` for an empty range. -/
structure AsioConnect.Documented (asioConnect : AsioConnect) : Prop where
  accepted (before : List Endpoint) (e : Endpoint) (after : List Endpoint) (hbefore : ∀ e' ∈ before, e'.connect ≠ none)
    (he : e.connect = none) : asioConnect (before ++ e :: after) = (e :: after, none)
  refused (before : List Endpoint) (last : Endpoint) (fault : Fault) (hbefore : ∀ e ∈ before, e.connect ≠ none)
    (hlast : last.connect = some fault) : asioConnect (before ++ [last]) = ([], some fault)
  empty : asioConnect [] = ([], some notFound)

section Connect
variable (asioConnect : AsioConnect) (io : SocketIo)

/-- `connect` of the two implementations. A handshake that fails is thrown, as it is. -/
def SocketIo.connect (endpoints : List Endpoint) : Except Exn (List Endpoint × ErrorCode) :=
  match io, asioConnect endpoints with
  | .ssl, (e :: es, none) =>
    match e.handshake with
    | none => .ok (e :: es, none)
    | some fault => .error (.errorCode fault)
  | _, connected => .ok connected

/-- `Connector::open`: whether a valid endpoint came out, and the error code. -/
def openConnection (resolved : Except Fault (List Endpoint)) : Except Exn (Bool × ErrorCode) :=
  match resolved with
  | .error fault => .error (.systemError fault)
  | .ok endpoints => do
    let (point, ec) ← io.connect asioConnect endpoints
    return (!point.isEmpty, ec)

def startOpening (resolved : Except Fault (List Endpoint)) : Except Exn Unit := do
  let (opened, ec) ← openConnection asioConnect io resolved
  match ec with
  | some fault => .error (.systemError fault)
  | none => if opened then .ok () else .error .runtimeError

end Connect

/-- **How an opening ends.** The first endpoint that accepts is taken, and no one behind it is tried. -/
inductive OpensWith (io : SocketIo) : Except Fault (List Endpoint) → Except Exn Unit → Prop where
  | opened (before : List Endpoint) (e : Endpoint) (after : List Endpoint) (hbefore : ∀ e' ∈ before, e'.connect ≠ none)
    (he : e.connect = none) (hhandshake : io = .ssl → e.handshake = none) :
    OpensWith io (.ok (before ++ e :: after)) (.ok ())
  | notResolved (fault : Fault) : OpensWith io (.error fault) (.error (.systemError fault))
  | noEndpoint : OpensWith io (.ok []) (.error (.systemError notFound))
  | refused (before : List Endpoint) (last : Endpoint) (fault : Fault) (hbefore : ∀ e ∈ before, e.connect ≠ none)
    (hlast : last.connect = some fault) : OpensWith io (.ok (before ++ [last])) (.error (.systemError fault))
  | notSecured (before : List Endpoint) (e : Endpoint) (after : List Endpoint) (fault : Fault)
    (hbefore : ∀ e' ∈ before, e'.connect ≠ none) (he : e.connect = none) (hio : io = .ssl)
    (hhandshake : e.handshake = some fault) :
    OpensWith io (.ok (before ++ e :: after)) (.error (.errorCode fault))

section Opening
variable {asioConnect : AsioConnect} {io : SocketIo}

/-- An endpoint accepts, or all refuse. -/
theorem exists_accepting (endpoints : List Endpoint) :
    (∃ before e after, endpoints = before ++ e :: after ∧ (∀ e' ∈ before, e'.connect ≠ none) ∧ e.connect = none) ∨
      ∀ e ∈ endpoints, e.connect ≠ none := by
  induction endpoints with
  | nil => exact .inr (by simp)
  | cons e endpoints ih =>
    by_cases he : e.connect = none
    · exact .inl ⟨[], e, endpoints, rfl, by simp, he⟩
    · rcases ih with ⟨before, e', after, rfl, hbefore, he'⟩ | hall
      · exact .inl ⟨e :: before, e', after, rfl, List.forall_mem_cons.mpr ⟨he, hbefore⟩, he'⟩
      · exact .inr (List.forall_mem_cons.mpr ⟨he, hall⟩)

theorem startOpening_eq (hconnect : asioConnect.Documented) {resolved : Except Fault (List Endpoint)}
    {result : Except Exn Unit} (h : OpensWith io resolved result) : startOpening asioConnect io resolved = result := by
  cases h with
  | notResolved fault => rfl
  | noEndpoint =>
    rw [startOpening, openConnection, SocketIo.connect.eq_def, hconnect.empty]
    cases io <;> rfl
  | opened before e after hbefore he hhandshake =>
    rw [startOpening, openConnection, SocketIo.connect.eq_def, hconnect.accepted before e after hbefore he]
    cases io with
    | unsecured => rfl
    | ssl => simp [hhandshake rfl]
  | refused before last fault hbefore hlast =>
    rw [startOpening, openConnection, SocketIo.connect.eq_def, hconnect.refused before last fault hbefore hlast]
    cases io <;> rfl
  | notSecured before e after fault hbefore he hio hhandshake =>
    rw [startOpening, openConnection, SocketIo.connect.eq_def, hconnect.accepted before e after hbefore he, hio]
    simp [hhandshake]

/-- **Every opening ends in one of these ways.** -/
theorem exists_opensWith (io : SocketIo) (resolved : Except Fault (List Endpoint)) :
    ∃ result, OpensWith io resolved result := by
  cases resolved with
  | error fault => exact ⟨_, .notResolved fault⟩
  | ok endpoints =>
    rcases exists_accepting endpoints with ⟨before, e, after, rfl, hbefore, he⟩ | hall
    · cases hhandshake : e.handshake with
      | none => exact ⟨_, .opened before e after hbefore he fun _ => hhandshake⟩
      | some fault =>
        cases io with
        | unsecured => exact ⟨_, .opened before e after hbefore he nofun⟩
        | ssl => exact ⟨_, .notSecured before e after fault hbefore he rfl hhandshake⟩
    · rcases List.eq_nil_or_concat' endpoints with rfl | ⟨before, last, rfl⟩
      · exact ⟨_, .noEndpoint⟩
      · obtain ⟨fault, hfault⟩ := Option.ne_none_iff_exists'.mp (hall last (by simp))
        exact ⟨_, .refused before last fault (fun e he => hall e (by simp [he])) hfault⟩

theorem startOpening_iff (hconnect : asioConnect.Documented) {resolved : Except Fault (List Endpoint)}
    {result : Except Exn Unit} : startOpening asioConnect io resolved = result ↔ OpensWith io resolved result := by
  refine ⟨fun h => ?_, startOpening_eq hconnect⟩
  obtain ⟨result', h'⟩ := exists_opensWith io resolved
  rwa [← h, startOpening_eq hconnect h']

end Opening

/-! ## The end of the client -/

/-- What happens to the client's thread: a push by the scraper, a step of its own, an opening with what comes of its
endpoints, or an exchange. -/
inductive Happening (D A : Type) where
  | push (d : D)
  | internal (scraperGood : Bool)
  | opening (resolved : Except Fault (List Endpoint))
  | exchange (result : Except Exn (ErrorCode × Response A))

section Ends
variable {σ D A : Type} (asioConnect : AsioConnect) (io : SocketIo) (strat : Strategy σ D A) (keepAlive : Bool)

def Happening.act : Happening D A → Thread.Act D A
  | .push d => .push d
  | .internal scraperGood => .next scraperGood .internal
  | .opening resolved => .next true (.opened (startOpening asioConnect io resolved))
  | .exchange result => .next true (.sent result)

def Thread.happen (t : Thread σ D A) (x : Happening D A) : Option (Thread σ D A) :=
  t.act strat keepAlive (x.act asioConnect io)

def Pc.Final (p : Pc D A) : Prop := p = .returned ∨ ∃ h, p = .halted h

/-- **What brings the client to its end**, and to which: nothing more is to come, no endpoint can be used, or an
exchange fails in a way that another connection does not help. -/
inductive EndsWith (t : Thread σ D A) : Happening D A → Pc D A → Prop where
  | returned (connectionOk : Bool) (hkeepAlive : keepAlive = false) (hpc : t.pc = .testScraper connectionOk) :
    EndsWith t (.internal false) .returned
  | notOpened (resolved : Except Fault (List Endpoint)) (e : Exn) (h : OpensWith io resolved (.error e)) :
    EndsWith t (.opening resolved) (.halted (.thrown e))
  | thrown (e : Exn) : EndsWith t (.exchange (.error e)) (.halted (.thrown e))
  | failed (fault : Fault) (r : Response A) (h : ¬ Broken fault) :
    EndsWith t (.exchange (.ok (some fault, r))) (.halted (.thrown (.systemError fault)))
  | assertion (r : Response A) (hstatus : r.transmissionStatus = .ok) (h : strat.response t.strategy r = none) :
    EndsWith t (.exchange (.ok (none, r))) (.halted (.assertion r))

variable {asioConnect io strat keepAlive} {t t' : Thread σ D A} {x : Happening D A} {p : Pc D A}

theorem react_not_broken {fault : Fault} (h : ¬ Broken fault) (status : TransmitionStatus) :
    react (some fault) status = .throws fault := by
  cases fault <;> simp_all [Broken, react]

theorem onSent_final_iff (d : D) (result : Except Exn (ErrorCode × Response A)) (hp : p.Final) :
    (t.onSent strat d result).pc = p ↔ EndsWith io strat keepAlive t (.exchange result) p := by
  cases result with
  | error e =>
    constructor
    · rintro rfl
      exact .thrown e
    · intro h
      cases h
      rfl
  | ok sent =>
    obtain ⟨ec, r⟩ := sent
    rw [Thread.onSent]
    cases ec with
    | some fault =>
      by_cases hbroken : Broken fault
      · rw [react_broken hbroken]
        refine iff_of_false ?_ fun h => ?_
        · rintro rfl
          rcases hp with hp | ⟨h, hp⟩ <;> cases hp
        · cases h
          contradiction
      · rw [react_not_broken hbroken]
        constructor
        · rintro rfl
          exact .failed fault r hbroken
        · intro h
          cases h
          rfl
    | none =>
      by_cases hstatus : r.transmissionStatus = .ok
      · rw [react_respond.mpr ⟨rfl, hstatus⟩]
        cases hresponse : strat.response t.strategy r with
        | none =>
          constructor
          · rintro rfl
            exact .assertion r hstatus hresponse
          · intro h
            cases h
            rfl
        | some strategy =>
          refine iff_of_false ?_ fun h => ?_
          · rintro rfl
            rcases hp with hp | ⟨h, hp⟩ <;> cases hp
          · cases h
            simp_all
      · have hreact : react none r.transmissionStatus = .reconnect := by rw [react, if_neg hstatus]
        rw [hreact]
        refine iff_of_false ?_ fun h => ?_
        · rintro rfl
          rcases hp with hp | ⟨h, hp⟩ <;> cases hp
        · cases h
          contradiction

theorem moves_final_iff {scraperGood : Bool} (h : Thread.Moves strat keepAlive scraperGood t .internal t')
    (hkeepAlive : ∀ connectionOk, t.pc = .testScraper connectionOk → keepAlive = false) (hp : p.Final) :
    t'.pc = p ↔ EndsWith io strat keepAlive t (.internal scraperGood) p := by
  -- elsewhere the thread goes on, and a test of the scraper is not what it does next
  have hothers : ¬ t'.pc.Final → (∀ connectionOk, t.pc ≠ .testScraper connectionOk) →
      (t'.pc = p ↔ EndsWith io strat keepAlive t (.internal scraperGood) p) := by
    intro hgoes htest
    refine iff_of_false ?_ fun h => ?_
    · rintro rfl
      exact hgoes hp
    · cases h with
      | returned connectionOk _ hpc => exact htest connectionOk hpc
  cases h with
  | empty hpc hq => exact hothers (by simp [Pc.Final]) (by simp [hpc])
  | nonempty hpc hq => exact hothers (by simp [Pc.Final]) (by simp [hpc])
  | front hpc d q hq => exact hothers (by simp [Pc.Final]) (by simp [hpc])
  | pop hpc => exact hothers (by simp [Pc.Final]) (by simp [hpc])
  | keepAlive connectionOk hpc =>
    exact hothers (by cases keepAlive <;> cases connectionOk <;> simp [Pc.Final, afterTest]) (by simp [hpc])
  | testedEmpty connectionOk hpc hq => exact hothers (by simp [Pc.Final]) (by simp [hpc])
  | testedNonempty connectionOk hpc hq =>
    exact hothers (by cases connectionOk <;> simp [Pc.Final, afterTest]) (by simp [hpc])
  | testedScraper connectionOk hpc =>
    cases scraperGood with
    | true =>
      refine iff_of_false ?_ fun h => ?_
      · rintro rfl
        revert hp
        cases connectionOk <;> simp [Pc.Final, afterTest]
      · cases h
    | false =>
      constructor
      · rintro rfl
        exact .returned connectionOk (hkeepAlive connectionOk hpc) hpc
      · intro h
        cases h
        rfl

/-- **One step to the end.** -/
theorem happen_final_iff (hconnect : asioConnect.Documented) (hp : p.Final) (hne : ¬ t.pc = p)
    (hkeepAlive : ∀ connectionOk, t.pc = .testScraper connectionOk → keepAlive = false)
    (h : t.happen asioConnect io strat keepAlive x = some t') : t'.pc = p ↔ EndsWith io strat keepAlive t x p := by
  cases x with
  | push d =>
    cases h
    exact iff_of_false hne nofun
  | internal scraperGood => exact moves_final_iff (Thread.moves_of_next h) hkeepAlive hp
  | opening resolved =>
    have hmoves := Thread.moves_of_next h
    generalize hresult : startOpening asioConnect io resolved = result at hmoves
    cases hmoves with
    | opened hpc =>
      refine iff_of_false ?_ fun h => ?_
      · rintro rfl
        rcases hp with hp | ⟨h, hp⟩ <;> cases hp
      · cases h with
        | notOpened resolved e h => cases hresult.symm.trans (startOpening_eq hconnect h)
    | notOpened hpc e =>
      constructor
      · rintro rfl
        exact .notOpened resolved e ((startOpening_iff hconnect).mp hresult)
      · intro h
        cases h with
        | notOpened resolved e' h =>
          cases hresult.symm.trans (startOpening_eq hconnect h)
          rfl
  | exchange result =>
    have hmoves := Thread.moves_of_next h
    cases hmoves with
    | sent d hpc result => exact onSent_final_iff d result hp

def Pc.BehindKeepAlive (p : Pc D A) : Prop :=
  ∃ connectionOk, p = .testEmpty connectionOk ∨ p = .testScraper connectionOk

theorem not_behind_afterTest (connectionOk inputOk : Bool) :
    ¬ (afterTest connectionOk inputOk : Pc D A).BehindKeepAlive := by
  cases connectionOk <;> cases inputOk <;> simp [Pc.BehindKeepAlive, afterTest]

theorem behind_moves {scraperGood : Bool} {m : Move A} (h : Thread.Moves strat keepAlive scraperGood t m t')
    (hbehind : t.pc.BehindKeepAlive → keepAlive = false) : t'.pc.BehindKeepAlive → keepAlive = false := by
  intro hb
  cases h with
  | keepAlive connectionOk hpc =>
    cases keepAlive with
    | true => exact absurd hb (not_behind_afterTest connectionOk true)
    | false => rfl
  | testedEmpty connectionOk hpc hq => exact hbehind ⟨connectionOk, .inl hpc⟩
  | testedNonempty connectionOk hpc hq => exact absurd hb (not_behind_afterTest connectionOk true)
  | testedScraper connectionOk hpc => exact absurd hb (not_behind_afterTest connectionOk scraperGood)
  | sent d hpc result =>
    obtain ⟨connectionOk, hb⟩ := hb
    unfold Thread.onSent at hb
    split at hb
    · simp at hb
    split at hb
    · simp at hb
    · simp at hb
    split at hb <;> simp at hb
  | _ =>
    obtain ⟨connectionOk, hb⟩ := hb
    simp at hb

/-- In every run the operands behind `keep_alive_` are looked at only without it. -/
theorem behind_run {xs : List (Happening D A)} (hs : t.pc = .opening)
    (hrun : Runs (StepOf (Thread.happen asioConnect io strat keepAlive)) t xs t') :
    t'.pc.BehindKeepAlive → keepAlive = false := by
  refine hrun.invariant (I := fun _ u => u.pc.BehindKeepAlive → keepAlive = false) ?_ fun xs u x u' _ ih hstep => ?_
  · rintro ⟨connectionOk, hb⟩
    simp [hs] at hb
  · cases x with
    | push d =>
      cases hstep
      exact ih
    | _ => exact behind_moves (Thread.moves_of_next hstep) ih

theorem not_final_of_moves {scraperGood : Bool} {m : Move A} (h : Thread.Moves strat keepAlive scraperGood t m t') :
    ¬ t.pc.Final := by
  rintro (hpc | ⟨halt, hpc⟩) <;> cases h <;> simp_all

theorem final_happen (hp : p.Final) (hpc : t.pc = p) (h : t.happen asioConnect io strat keepAlive x = some t') :
    t'.pc = p := by
  subst hpc
  cases x with
  | push d =>
    cases h
    rfl
  | _ => exact absurd hp (not_final_of_moves (Thread.moves_of_next h))

/-- **The end of the client.** In every run of its thread, with a socket IO that the factory has created, an
`asioConnect` as documented and whatever the resolver, the endpoints and the exchanges come to, the thread is at an end
exactly when something has brought it there: it returns when it is not kept alive and the scraper shows at the last
operand of the test that it has nothing more, and it is halted by an opening without an endpoint to use, with the error
of the last one that refused or of the handshake, by an exchange that throws or fails for good, or by the assertion of
the strategy. -/
theorem client_ends_iff (hconnect : asioConnect.Documented) (strat : Strategy σ D A) (keepAlive : Bool)
    {singleDhUse : Nat} {fails : ContextCall → ErrorCode} {o : SslOptions}
    (hio : createIo singleDhUse fails o .client = .ok io) {xs : List (Happening D A)} (hs : t.pc = .opening)
    (hrun : Runs (StepOf (Thread.happen asioConnect io strat keepAlive)) t xs t') (hp : p.Final) :
    (io = .ssl ↔ o.mode ≠ .off) ∧ (t'.pc = p ↔ ∃ before x after u v, xs = before ++ x :: after ∧
      Runs (StepOf (Thread.happen asioConnect io strat keepAlive)) t before u ∧ EndsWith io strat keepAlive u x p ∧
      StepOf (Thread.happen asioConnect io strat keepAlive) u x v ∧
      Runs (StepOf (Thread.happen asioConnect io strat keepAlive)) v after t') := by
  refine ⟨createIo_ok hio, hrun.comes_about_iff (Q := fun u => u.pc = p)
    (fun u x v hpc hstep => final_happen hp hpc hstep)
    (fun xs u x v hrun hne hstep => happen_final_iff hconnect hp hne (fun connectionOk hpc => ?_) hstep) ?_⟩
  · exact behind_run hs hrun ⟨connectionOk, .inr hpc⟩
  · intro hpc
    rw [hs] at hpc
    rcases hp with rfl | ⟨halt, rfl⟩ <;> cases hpc

/-- One endpoint after another, with the error code so far. -/
def connectLoop (ec : ErrorCode) : AsioConnect
  | [] => ([], some (ec.getD notFound))
  | e :: es =>
    match e.connect with
    | none => (e :: es, none)
    | some fault => connectLoop (some fault) es

theorem connectLoop_accepted {before : List Endpoint} {e : Endpoint} (hbefore : ∀ e' ∈ before, e'.connect ≠ none)
    (he : e.connect = none) (after : List Endpoint) (ec : ErrorCode) :
    connectLoop ec (before ++ e :: after) = (e :: after, none) := by
  induction before generalizing ec with
  | nil => simp [connectLoop, he]
  | cons e' before ih =>
    obtain ⟨fault, hfault⟩ := Option.ne_none_iff_exists'.mp (hbefore e' List.mem_cons_self)
    rw [List.cons_append, connectLoop, hfault]
    exact ih (fun x hx => hbefore x (List.mem_cons_of_mem e' hx)) (some fault)

theorem connectLoop_refused {before : List Endpoint} {last : Endpoint} {fault : Fault}
    (hbefore : ∀ e ∈ before, e.connect ≠ none) (hlast : last.connect = some fault) (ec : ErrorCode) :
    connectLoop ec (before ++ [last]) = ([], some fault) := by
  induction before generalizing ec with
  | nil => simp [connectLoop, hlast]
  | cons e before ih =>
    obtain ⟨fault', hfault⟩ := Option.ne_none_iff_exists'.mp (hbefore e List.mem_cons_self)
    rw [List.cons_append, connectLoop, hfault]
    exact ih (fun x hx => hbefore x (List.mem_cons_of_mem e hx)) (some fault')

theorem connectLoop_documented : AsioConnect.Documented (connectLoop none) where
  accepted _ _ after hbefore he := connectLoop_accepted hbefore he after none
  refused _ _ _ hbefore hlast := connectLoop_refused hbefore hlast none
  empty := rfl

/-- The options of a client that checks the server's certificate. -/
def verifyingOptions : SslOptions := ⟨.sslv23, 0, 1, [ch 's'], [ch 'c'], [], []⟩

def unassuming : Strategy Unit ℕ ℕ := ⟨fun s _ => s, fun s _ => some s⟩

/-- The first endpoint refuses and the second one is used; the exchange breaks; then the second one fails the
handshake, and a third one that would not is not tried. -/
def handshakeLost : List (Happening ℕ ℕ) :=
  [.push 1, .opening (.ok [⟨some (.other 111), none⟩, ⟨none, none⟩]), .internal true, .internal true,
    .exchange (.ok (some .connectionReset, ⟨.ok, 0⟩)), .internal true, .internal true,
    .opening (.ok [⟨some (.other 111), none⟩, ⟨none, some (.other 1)⟩, ⟨none, none⟩]), .push 2]

theorem client_ends_iff_handshakeLost : ∃ t' before x after u v,
    Runs (StepOf (Thread.happen (connectLoop none) .ssl unassuming false)) ⟨.opening, [], (), [], []⟩ handshakeLost t' ∧
    t'.pc = .halted (.thrown (.errorCode (.other 1))) ∧ handshakeLost = before ++ x :: after ∧
    EndsWith .ssl unassuming false u x (.halted (.thrown (.errorCode (.other 1)))) ∧
    StepOf (Thread.happen (connectLoop none) .ssl unassuming false) u x v := by
  have hplay : ∃ t', play (Thread.happen (connectLoop none) .ssl unassuming false) ⟨.opening, [], (), [], []⟩
      handshakeLost = some t' ∧ t'.pc = .halted (.thrown (.errorCode (.other 1))) := ⟨_, rfl, rfl⟩
  obtain ⟨t', hplay, hpc⟩ := hplay
  have hio : createIo 0 (fun _ => none) verifyingOptions .client = .ok .ssl := rfl
  obtain ⟨before, x, after, u, v, hxs, -, hends, hstep, -⟩ :=
    (client_ends_iff connectLoop_documented _ false hio rfl (runs_of_play hplay) (.inr ⟨_, rfl⟩)).2.mp hpc
  exact ⟨t', before, x, after, u, v, runs_of_play hplay, hpc, hxs, hends, hstep⟩

end Ends

end TCPClientServer.Client
