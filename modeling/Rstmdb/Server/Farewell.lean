import Rstmdb.Server.BatchWork

/-! Saying goodbye. A BYE marks the session, and the connection looks at the mark after the
request. So a batch goes on behind a BYE, and what comes there may take the mark away: the
goodbye is final if it is the last operation of its request. -/
namespace Rstmdb
open Json (Value)

/-- No operation comes after a BYE. -/
def ByeLast (l : List Operation) : Prop := l.Pairwise fun op _ => op ≠ .bye

instance (l : List Operation) : Decidable (ByeLast l) :=
  inferInstanceAs (Decidable (l.Pairwise _))

/-- The operations that a step of a connection executes on its session, in order. -/
def Connection.executes (X : ServerExternals) (c : CommandHandler) (s : Shared)
    (conn : Connection) : ConnectionOp → List Operation
  | .request request _ =>
    if conn.isOpen then
      if request.op ∈ watchOps then [request.op]
      else admittedOps c (calls X c s conn.session request)
    else []
  | _ => []

namespace Hub

/-- The operations that a step executes on the session of connection `k`. -/
def executes (X : ServerExternals) (k : Nat) (hub : Hub) : HubOp → List Operation
  | .connection j op =>
    if j = k then
      (hub.connections[k]?).elim [] (·.executes X hub.server.handler hub.server.shared op)
    else []
  | _ => []

/-- The operations that a run executes on the session of connection `k`. -/
def executed (X : ServerExternals) (k : Nat) : Hub → List HubOp → List Operation
  | _, [] => []
  | hub, op :: ops =>
    hub.executes X k op ++
      match hub.step X op with
      | some hub => executed X k hub ops
      | none => []

/-- A request of connection `k` that is let in has no operation after a BYE. -/
def partsLast (k : Nat) (hub : Hub) : HubOp → Prop
  | .connection j (.request request _) =>
    j = k → ∀ conn ∈ hub.connections[k]?,
      (hub.server.handler.requiresAuth request.op && !conn.session.authenticated) = false ∨
          request.op ∈ watchOps →
        ByeLast (operations hub.server.handler request)
  | _ => True

instance decidablePartsLast (k : Nat) (hub : Hub) : ∀ op, Decidable (hub.partsLast k op)
  | .connection j (.request request _) =>
    inferInstanceAs (Decidable (j = k → ∀ conn ∈ hub.connections[k]?,
      (hub.server.handler.requiresAuth request.op && !conn.session.authenticated) = false ∨
          request.op ∈ watchOps →
        ByeLast (operations hub.server.handler request)))
  | .connection _ (.receive _) | .connection _ (.send _) | .connection _ (.deliver _)
  | .connection _ .hangUp | .connection _ .fail | .accept | .compact =>
    inferInstanceAs (Decidable True)

/-- The goodbye was final: nothing was executed after a BYE, and if there was one, the
session is closing and the connection has ended. -/
structure Farewell (k : Nat) (done : List Operation) (hub : Hub) : Prop where
  last : ByeLast done
  ended : .bye ∈ done → ∃ conn, hub.connections[k]? = some conn ∧
    conn.session.state = .closing ∧ conn.isOpen = false

end Hub

/-! ## The last operation -/

section
variable {X : ServerExternals} {c : CommandHandler} {s s' : Shared}

theorem ByeLast.getLast {l : List Operation} (h : ByeLast l) (hbye : .bye ∈ l) :
    l.getLast? = some .bye := by
  obtain rfl | ⟨front, last, rfl⟩ := List.eq_nil_or_concat l
  · cases hbye
  rw [List.concat_eq_append] at h hbye ⊢
  obtain ⟨-, -, hfront⟩ := List.pairwise_append.mp h
  obtain hbye | hbye := List.mem_append.mp hbye
  · exact absurd rfl (hfront _ hbye last List.mem_cons_self)
  · rw [List.getLast?_concat, List.mem_singleton.mp hbye]

theorem ByeLast.append {l l' : List Operation} (h : ByeLast l) (h' : ByeLast l')
    (hbye : .bye ∈ l → l' = []) : ByeLast (l ++ l') := by
  refine List.pairwise_append.mpr ⟨h, h', fun op hop op' hop' heq => ?_⟩
  rw [hbye (heq ▸ hop)] at hop'
  cases hop'

theorem execute_bye {ses ses' : Session} {params : Value} {answer : Answered}
    (h : execute X c s ses .bye params = some (s', ses', answer)) : ses'.state = .closing := by
  cases h
  rfl

/-- A request whose last operation was a BYE leaves the session closing. -/
theorem closing_of_last_bye {ses ses' : Session} {request : Request} {r : Response}
    (h : handle X c s ses request = some (s', ses', r))
    (hlast : (admittedOps c (calls X c s ses request)).getLast? = some .bye) :
    ses'.state = .closing := by
  refine calls_keep (P := fun l _ ses => (admittedOps c l).getLast? = some .bye →
    ses.state = .closing) ?_ ?_ (l := []) nofun h hlast
  · intro l s ses request hP hr
    rw [admittedOps_append]
    cases hrefused : (c.requiresAuth request.op && !ses.authenticated) with
    | true =>
      rw [admittedOps_refused hrefused]
      show (admittedOps c l ++ []).getLast? = some .bye → _
      rw [List.append_nil]
      exact hP
    | false =>
      have hop : request.op = .batch := by simpa [hrefused] using hr
      rw [admittedOps_admitted hrefused, hop]
      simp [admittedOps]
  · intro l s ses request s' ses' answer hP hr he hlast
    rw [admittedOps_append, admittedOps_admitted hr] at hlast
    have hop : request.op = .bye := by simpa [admittedOps] using hlast
    rw [hop] at he
    exact execute_bye he

namespace Connection

variable {conn conn' : Connection} {op : ConnectionOp}

theorem closed_step (hclosed : conn.isOpen = false) (hs : conn.step X c s op = some (s', conn')) :
    conn.executes X c s op = [] ∧ conn'.session = conn.session ∧ conn'.isOpen = false := by
  cases steps_of_step hs with
  | received | cancelled => exact ⟨rfl, rfl, hclosed⟩
  | panicked _ hopen | unanswered hopen | closed hopen | answered hopen | sent _ hopen
  | delivered hopen
  | undelivered hopen | hungUp hopen | failed hopen =>
    rw [hclosed] at hopen
    cases hopen

theorem bye_step (hs : conn.step X c s op = some (s', conn'))
    (hlast : (conn.executes X c s op).getLast? = some .bye) :
    conn'.session.state = .closing ∧ conn'.isOpen = false := by
  have closing {request : Request} {written : Bool} {s₁ : Shared} {conn₁ : Connection}
      {r : Response} (hopen : conn.isOpen = true)
      (hd : dispatch X c s conn request = some (s₁, conn₁, r))
      (hlast : (conn.executes X c s (.request request written)).getLast? = some .bye) :
      conn₁.session.state = .closing := by
    simp only [executes, hopen, if_true] at hlast
    split at hlast
    · rename_i hwatch
      have hbye : request.op = .bye := by simpa using hlast
      simp [hbye, watchOps] at hwatch
    · rename_i hwatch
      obtain ⟨ses₁, tasks, hh, rfl, -⟩ := dispatch_handle hwatch hd
      exact closing_of_last_bye hh hlast
  cases steps_of_step hs with
  | @panicked request _ hopen hd =>
    -- The operation that panicked is the last one, and a BYE does not panic.
    simp only [executes, hopen, if_true] at hlast
    split at hlast
    · rename_i hwatch
      have hbye : request.op = .bye := by simpa using hlast
      simp [hbye, watchOps] at hwatch
    rename_i hwatch
    obtain ⟨front, k, hcalls, hk⟩ := panics_of_handle (handle_panics hwatch hd)
    rw [hcalls, admittedOps_append, admittedOps_admitted hk.admitted] at hlast
    have hop : k.request.op = .bye := by simpa [admittedOps] using hlast
    have hnone := hk.executed
    rw [hop] at hnone
    cases hnone
  | unanswered hopen hd | closed hopen hd =>
    have hclosing := closing hopen hd hlast
    exact ⟨hclosing, rfl⟩
  | answered hopen hd running => exact absurd (closing hopen hd hlast) running
  | _ => cases hlast

theorem executes_sublist (request : Request) (written : Bool) :
    (conn.executes X c s (.request request written)).Sublist (operations c request) := by
  simp only [executes]
  split
  · split
    · simp [operations, operationsWithin]
    · exact admittedOps_callsWithin_sublist _ _ _ _
  · exact List.nil_sublist _

theorem executes_byeLast {request : Request} {written : Bool}
    (h : (c.requiresAuth request.op && !conn.session.authenticated) = false ∨
      request.op ∈ watchOps → ByeLast (operations c request)) :
    ByeLast (conn.executes X c s (.request request written)) := by
  by_cases hadmitted : (c.requiresAuth request.op && !conn.session.authenticated) = false ∨
      request.op ∈ watchOps
  · exact (h hadmitted).sublist (executes_sublist request written)
  · obtain ⟨hrefused, hwatch⟩ := not_or.mp hadmitted
    have hrefused := Bool.not_eq_false _ ▸ hrefused
    rw [executes, if_neg hwatch, calls, callsWithin, if_pos hrefused, admittedOps_refused hrefused]
    split <;> exact List.Pairwise.nil

/-- A request that is let in and does not panic, and has no batch that stops at a failure,
executes all its operations. -/
theorem executes_eq {request : Request} {written : Bool}
    (hs : conn.step X c s (.request request written) = some (s', conn'))
    (hadmitted : (c.requiresAuth request.op && !conn.session.authenticated) = false ∨
      request.op ∈ watchOps)
    (hreturns : conn.panics X c s (.request request written) = false)
    (hmode : ∀ inner ∈ nested request, inner.atomic = false) :
    conn.executes X c s (.request request written) = operations c request := by
  obtain ⟨hopen, ⟨hd, -⟩ | ⟨s₁, conn₁, r, hd, -⟩⟩ := step_request hs
  · simp [panics, hopen, hd] at hreturns
  simp only [executes, hopen, if_true]
  by_cases hwatch : request.op ∈ watchOps
  · have hop : request.op ≠ .batch := by
      intro hop
      simp [hop, watchOps] at hwatch
    rw [if_pos hwatch, operations, operationsWithin, if_neg hop]
  · have hadmitted := hadmitted.resolve_right hwatch
    rw [if_neg hwatch, calls]
    by_cases hop : request.op = .batch
    · obtain ⟨ses₁, tasks, hh, -, -⟩ := dispatch_handle hwatch hd
      exact admittedOps_callsWithin _ (Nat.lt_succ_self _) (admits_of_batch hop hadmitted) hmode hh
    · rw [callsWithin, if_neg hop, ite_self, operations, operationsWithin, if_neg hop,
        admittedOps_admitted hadmitted]
      rfl

end Connection

/-! ## Steps and runs -/

namespace Hub

variable {hub hub' : Hub} {k : Nat} {op : HubOp} {done : List Operation}

theorem Farewell.connection {conn conn' : Connection} {cop : ConnectionOp}
    (h : hub.Farewell k done) (hconn : hub.connections[k]? = some conn)
    (hgood : hub.partsLast k (.connection k cop))
    (hstep : conn.step X hub.server.handler hub.server.shared cop = some (s', conn'))
    (hconn' : hub'.connections[k]? = some conn') :
    hub'.Farewell k (done ++ conn.executes X hub.server.handler hub.server.shared cop) := by
  by_cases hbye : .bye ∈ done
  · obtain ⟨conn₁, hconn₁, hclosing, hclosed⟩ := h.ended hbye
    obtain rfl : conn = conn₁ := Option.some.inj (hconn.symm.trans hconn₁)
    obtain ⟨hnone, hsession, hclosed'⟩ := conn.closed_step hclosed hstep
    rw [hnone, List.append_nil]
    exact ⟨h.last, fun _ => ⟨conn', hconn', by rw [hsession, hclosing], hclosed'⟩⟩
  · have hlast : ByeLast (conn.executes X hub.server.handler hub.server.shared cop) := by
      cases cop with
      | request request written => exact Connection.executes_byeLast (hgood rfl conn hconn)
      | receive | send | deliver | hangUp | fail => exact List.Pairwise.nil
    refine ⟨h.last.append hlast (fun hb => absurd hb hbye), fun hb => ?_⟩
    have hb := (List.mem_append.mp hb).resolve_left hbye
    exact ⟨conn', hconn', Connection.bye_step hstep (hlast.getLast hb)⟩

theorem Farewell.step (h : hub.Farewell k done) (hgood : hub.partsLast k op)
    (hs : hub.step X op = some hub') : hub'.Farewell k (done ++ hub.executes X k op) := by
  have others (hsame : ∀ conn, hub.connections[k]? = some conn → hub'.connections[k]? = some conn)
      (hnone : hub.executes X k op = []) : hub'.Farewell k (done ++ hub.executes X k op) := by
    rw [hnone, List.append_nil]
    refine ⟨h.last, fun hbye => ?_⟩
    obtain ⟨conn, hconn, hended⟩ := h.ended hbye
    exact ⟨conn, hsame conn hconn, hended⟩
  cases op with
  | accept =>
    cases hs
    refine others (fun conn hconn => ?_) rfl
    rw [List.getElem?_append_left (List.getElem?_eq_some_iff.mp hconn).1, hconn]
  | compact =>
    cases hs
    exact others (fun conn hconn => hconn) rfl
  | connection j cop =>
    obtain ⟨conn, s₁, conn₁, hj, hstep, rfl⟩ := connection_of_step hs
    by_cases hjk : j = k
    · subst hjk
      have hlt : j < hub.connections.length := (List.getElem?_eq_some_iff.mp hj).1
      simp only [executes, if_true, hj, Option.elim_some]
      exact h.connection hj hgood hstep (List.getElem?_set_self hlt)
    · refine others (fun conn hconn => ?_) (if_neg hjk)
      rw [List.getElem?_set_ne hjk, hconn]

theorem Farewell.run {ops : List HubOp} (h : hub.Farewell k done)
    (hgood : Meets (Hub.step X) (partsLast k) hub ops)
    (hrun : Rstmdb.run (Hub.step X) hub ops = some hub') :
    hub'.Farewell k (done ++ hub.executed X k ops) := by
  induction ops generalizing hub done with
  | nil =>
    cases hrun
    simpa [executed] using h
  | cons op ops ih =>
    obtain ⟨hub₁, hs, hrest⟩ := run_cons.mp hrun
    obtain ⟨hop, hops⟩ := hgood
    rw [hs] at hops
    rw [executed, hs, ← List.append_assoc]
    exact ih (h.step hop hs) hops hrest

/-- Without panics and batches that stop at a failure, nothing is executed after a BYE only
if no request has anything there. -/
theorem partsLast_of_byeLast {ops : List HubOp}
    (hmode : ∀ request written, .connection k (.request request written) ∈ ops →
      ∀ inner ∈ nested request, inner.atomic = false)
    (hreturns : Meets (Hub.step X) (fun hub op => hub.panics X k op = false) hub ops)
    (hrun : Rstmdb.run (Hub.step X) hub ops = some hub')
    (h : ByeLast (hub.executed X k ops)) : Meets (Hub.step X) (partsLast k) hub ops := by
  induction ops generalizing hub with
  | nil => trivial
  | cons op ops ih =>
    obtain ⟨hub₁, hs, hrest⟩ := run_cons.mp hrun
    rw [executed, hs] at h
    obtain ⟨hfirst, hlater, -⟩ := List.pairwise_append.mp h
    obtain ⟨hreturn, hreturns⟩ := hreturns
    rw [hs] at hreturns
    refine ⟨?_, ?_⟩
    · cases op with
      | accept | compact => trivial
      | connection j cop =>
        cases cop with
        | receive | send | deliver | hangUp | fail => trivial
        | request request written =>
          rintro rfl conn hconn hadmitted
          simp only [Hub.step, Option.mem_def.mp hconn] at hs
          obtain ⟨⟨s₁, conn₁⟩, hstep, -⟩ := Option.map_eq_some_iff.mp hs
          have heq := Connection.executes_eq hstep hadmitted
            (by simpa [panics, Option.mem_def.mp hconn] using hreturn)
            (hmode request written List.mem_cons_self)
          simp only [executes, if_true, Option.mem_def.mp hconn, Option.elim_some, heq] at hfirst
          exact hfirst
    · rw [hs]
      exact ih (fun request written hmem => hmode request written (List.mem_cons_of_mem _ hmem))
        hreturns hrest hlater

/-- Along every run of the server with any connections, the goodbye on connection `k` is
final if no request that is let in has an operation after a BYE. If none of its requests
panics and none of its batches stops at a failure, it is final only then. -/
theorem bye_final_iff (X : ServerExternals) (server : Server) (k : Nat) {ops : List HubOp}
    {hub : Hub} (hrun : Rstmdb.run (Hub.step X) ⟨server, []⟩ ops = some hub) :
    (Meets (Hub.step X) (partsLast k) ⟨server, []⟩ ops →
        hub.Farewell k (executed X k ⟨server, []⟩ ops)) ∧
      ((∀ request written, .connection k (.request request written) ∈ ops →
          ∀ inner ∈ nested request, inner.atomic = false) →
        Meets (Hub.step X) (fun hub op => hub.panics X k op = false) ⟨server, []⟩ ops →
        (hub.Farewell k (executed X k ⟨server, []⟩ ops) ↔
          Meets (Hub.step X) (partsLast k) ⟨server, []⟩ ops)) := by
  have hfirst : (⟨server, []⟩ : Hub).Farewell k [] := ⟨List.Pairwise.nil, nofun⟩
  refine ⟨fun hgood => hfirst.run hgood hrun, fun hmode hreturns => ?_⟩
  exact ⟨fun h => partsLast_of_byeLast hmode hreturns hrun h.last,
    fun hgood => hfirst.run hgood hrun⟩

end Hub

end

def byeOp : Value := .object [("op", .string "BYE")]

def helloOp : Value :=
  .object [("op", .string "HELLO"), ("params", .object [("protocol_version", .nat 1)])]

def pingNext : Request := ⟨"2", .ping, .null⟩

namespace Hub

/-- A batch with a BYE at its end. -/
theorem bye_final_at_end :
    ∃ hub, run (Hub.step serdeServer) ⟨.fresh (openConfig 0), []⟩
        (.accept :: requestsOf 0 [⟨"1", .batch, batchOf [pingOp, byeOp]⟩]) = some hub ∧
      executed serdeServer 0 ⟨.fresh (openConfig 0), []⟩
        (.accept :: requestsOf 0 [⟨"1", .batch, batchOf [pingOp, byeOp]⟩]) =
          [.batch, .ping, .bye] ∧
      hub.Farewell 0 [.batch, .ping, .bye] := by
  have hexecuted : executed serdeServer 0 ⟨.fresh (openConfig 0), []⟩
      (.accept :: requestsOf 0 [⟨"1", .batch, batchOf [pingOp, byeOp]⟩]) =
        [.batch, .ping, .bye] := by decide +kernel
  refine run_exists (p := fun _ => True) (by decide +kernel) fun hub hrun _ => ⟨hexecuted, ?_⟩
  rw [← hexecuted]
  exact (bye_final_iff serdeServer (.fresh (openConfig 0)) 0 hrun).1 (by decide +kernel)

/-- A HELLO behind the BYE: the session is not closing any more, and the connection goes on
to execute the next request. -/
theorem batch_goes_on_after_bye :
    ∃ hub, run (Hub.step serdeServer) ⟨.fresh (openConfig 0), []⟩
        (.accept :: requestsOf 0 [⟨"1", .batch, batchOf [byeOp, helloOp]⟩, pingNext]) =
          some hub ∧
      executed serdeServer 0 ⟨.fresh (openConfig 0), []⟩
          (.accept :: requestsOf 0 [⟨"1", .batch, batchOf [byeOp, helloOp]⟩, pingNext]) =
        [.batch, .bye, .hello, .ping] ∧
      ∃ conn, hub.connections[0]? = some conn ∧ conn.session.state = .authenticated ∧
        conn.isOpen = true := by
  have hexecuted : executed serdeServer 0 ⟨.fresh (openConfig 0), []⟩
      (.accept :: requestsOf 0 [⟨"1", .batch, batchOf [byeOp, helloOp]⟩, pingNext]) =
        [.batch, .bye, .hello, .ping] := by decide +kernel
  refine run_exists (p := fun hub => (hub.connections[0]?).any (fun conn =>
    conn.session.state = .authenticated && conn.isOpen) = true) (by decide +kernel) ?_
  intro hub _ h
  obtain ⟨conn, hconn, h⟩ := (Option.any_eq_true _ _).mp h
  obtain ⟨hstate, hopen⟩ := Bool.and_eq_true_iff.mp h
  exact ⟨hexecuted, conn, hconn, of_decide_eq_true hstate, hopen⟩

end Hub

end Rstmdb
