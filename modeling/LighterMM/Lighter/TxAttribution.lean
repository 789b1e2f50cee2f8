import LighterMM.Lighter.TxConnection

/-!
# Whose response a call returns (`lighter/tx_ws.rs`)

* **The connection** (`Traffic`): one that is alive between two calls is clean, and while a call waits, its
  connection owes that call.
* **The logs** (`Logs`): what was written, answered and returned.

`outcomes_attributed` is what they say together of any run of `send_batch` calls: a definite outcome is read
from the answer to the call's own frame, a call reported as not sent has no frame, and no frame is written
twice.
-/

namespace LighterMM

namespace TxRun

open TxWebSocket

variable {render : Json → String} {s s' : TxRun} {c : TxConn}

/-- What the server does to a connection. -/
theorem serverStep_spec {a : ServerAct} (h : s.serverStep c a = some s') :
    s'.pc = s.pc ∧ ∃ c', s'.conn = some c' ∧ c'.alive = c.alive ∧ (c.Clean → c'.Clean) ∧
      (c.Owes s.answers s.calls → c'.Owes s'.answers s'.calls) := by
  cases a with
  | answer body =>
    simp only [serverStep] at h
    split at h
    · rename_i k rest hun
      cases h
      refine ⟨rfl, _, rfl, rfl, fun hclean => ?_, fun howes => howes.answer hun⟩
      rw [hclean.unanswered] at hun
      cases hun
    · cases h
  | ignore =>
    simp only [serverStep] at h
    split at h
    · rename_i k rest hun
      cases h
      refine ⟨rfl, _, rfl, rfl, fun hclean => ?_, fun howes => howes.ignore hun⟩
      rw [hclean.unanswered] at hun
      cases hun
    · cases h
  | info m =>
    obtain ⟨hm, rfl⟩ := Option.ite_some_none_eq_some.mp h
    exact ⟨rfl, _, rfl, rfl, fun hclean => hclean.info hm, fun howes => howes.info hm⟩

/-- What a step of the call does. -/
inductive CallMove (render : Json → String) (s : TxRun) : TxRun → Prop
  | reuse {c : TxConn} (frame : Json) (hpc : s.pc = .idle) (hc : s.conn = some c) (halive : c.alive = true) :
    CallMove render s { s with calls := s.calls + 1, pc := .draining frame }
  | reopen (frame : Json) (hpc : s.pc = .idle) (hdead : ∀ c, s.conn = some c → c.alive = false) :
    CallMove render s { s with calls := s.calls + 1, pc := .opening frame }
  | opened (frame : Json) (hpc : s.pc = .opening frame) :
    CallMove render s { s with conn := some .opened, pc := .draining frame }
  | failed (frame : Json) (hpc : s.pc = .opening frame) :
    CallMove render s (s.finish render s.conn .connectFailed)
  | stale {c : TxConn} {resp : Json} {rest : List Json} (frame : Json) (hpc : s.pc = .draining frame)
    (hc : s.conn = some c) (hresp : c.responses = resp :: rest) :
    CallMove render s { s with conn := some { c with responses := rest } }
  | drained (frame : Json) (hpc : s.pc = .draining frame) : CallMove render s { s with pc := .drained frame }
  | write {c : TxConn} (frame : Json) (hpc : s.pc = .drained frame) (hc : s.conn = some c) :
    CallMove render s
      { s with conn := some { c with unanswered := c.unanswered ++ [s.calls] }, pc := .writing,
               written := s.written ++ [(s.calls, frame)] }
  | wrote (hpc : s.pc = .writing) : CallMove render s { s with pc := .waiting }
  | respond {c : TxConn} {resp : Json} {rest : List Json} (hpc : s.pc = .waiting) (hc : s.conn = some c)
    (hresp : c.responses = resp :: rest) :
    CallMove render s (s.finish render (some { c with responses := rest }) (.response resp))
  | abandon {c : TxConn} {reply : Reply} (hpc : s.pc = .writing ∨ s.pc = .waiting) (hc : s.conn = some c)
    (hresp : ∀ resp, reply ≠ .response resp) (hwritten : reply ≠ .connectFailed) :
    CallMove render s (s.finish render (some c.kill) reply)

theorem callStep_moves {a : CallAct} (h : s.callStep render a = some s') : CallMove render s s' := by
  cases a with
  | call txTypes txInfos =>
    simp only [callStep] at h
    split at h
    · rename_i hpc
      cases hlive : (s.conn.map TxConn.alive).getD false with
      | true =>
        simp only [hlive, if_true] at h
        cases h
        cases hc : s.conn with
        | none =>
          rw [hc] at hlive
          cases hlive
        | some c =>
          rw [hc] at hlive
          rw [← hc]
          exact .reuse _ hpc hc hlive
      | false =>
        simp only [hlive, Bool.false_eq_true, if_false] at h
        cases h
        refine .reopen _ hpc fun c hc => ?_
        rw [hc] at hlive
        exact hlive
    · cases h
  | opened ok =>
    simp only [callStep] at h
    split at h
    · rename_i frame hpc
      cases ok with
      | true =>
        cases h
        exact .opened frame hpc
      | false =>
        cases h
        exact .failed frame hpc
    · cases h
  | tryRecv =>
    simp only [callStep] at h
    split at h
    · rename_i frame c hpc hc
      split at h
      · rename_i resp rest hresp
        cases h
        exact .stale frame hpc hc hresp
      · cases h
        exact .drained frame hpc
    · cases h
  | write =>
    simp only [callStep] at h
    split at h
    · rename_i frame c hpc hc
      cases h
      exact .write frame hpc hc
    · cases h
  | wrote err =>
    simp only [callStep] at h
    split at h
    · rename_i c hpc hc
      cases err with
      | none =>
        cases h
        exact .wrote hpc
      | some e =>
        cases h
        exact .abandon (.inl hpc) hc (by simp) (by simp)
    · cases h
  | recv =>
    simp only [callStep] at h
    split at h
    · rename_i c hpc hc
      split at h
      · rename_i resp rest hresp
        cases h
        exact .respond hpc hc hresp
      · obtain ⟨-, rfl⟩ := Option.ite_some_none_eq_some.mp h
        exact .abandon (.inr hpc) hc (by simp) (by simp)
    · cases h
  | timeout =>
    simp only [callStep] at h
    split at h
    · rename_i c hpc hc
      cases h
      exact .abandon (.inr hpc) hc (by simp) (by simp)
    · cases h

/-- What the connection owes: nothing if it can be used for a frame; the answer to the frame of the call, once
that is written. -/
def Traffic (s : TxRun) : Prop :=
  ∀ c, s.conn = some c →
    match s.pc with
    | .idle | .opening _ => c.alive = true → c.Clean
    | .draining _ | .drained _ => c.Clean
    | .writing | .waiting => c.Owes s.answers s.calls

theorem traffic_conn {a : ConnAct} {c' : TxConn} (h : s.Traffic) (hc : s.conn = some c)
    (hst : c.step a = some c') : Traffic { s with conn := some c' } := by
  have hold := h c hc
  rintro _ ⟨⟩
  cases hpc : s.pc with
  | idle | opening =>
    simp only [hpc] at hold ⊢
    exact fun halive => (hold ((TxConn.step_spec hst).2.2 halive)).step hst
  | draining | drained =>
    simp only [hpc] at hold ⊢
    exact hold.step hst
  | writing | waiting =>
    simp only [hpc] at hold ⊢
    exact hold.step hst

theorem traffic_server {a : ServerAct} (h : s.Traffic) (hc : s.conn = some c)
    (hst : s.serverStep c a = some s') : s'.Traffic := by
  have hold := h c hc
  obtain ⟨hpc', c', hc', halive, hclean, howes⟩ := serverStep_spec hst
  intro d hd
  obtain rfl := Option.some.inj (hc'.symm.trans hd)
  rw [hpc']
  cases hpc : s.pc with
  | idle | opening =>
    simp only [hpc] at hold ⊢
    exact fun hal => hclean (hold (halive ▸ hal))
  | draining | drained =>
    simp only [hpc] at hold ⊢
    exact hclean hold
  | writing | waiting =>
    simp only [hpc] at hold ⊢
    exact howes hold

/-- A call that returns leaves a clean connection or a dead one. -/
theorem traffic_finish {conn : Option TxConn} {reply : Reply}
    (h : ∀ c, conn = some c → c.alive = true → c.Clean) : (s.finish render conn reply).Traffic := h

theorem traffic_call (h : s.Traffic) (hmove : CallMove render s s') : s'.Traffic := by
  cases hmove with
  | reuse frame hpc hc halive =>
    intro d hd
    obtain rfl := Option.some.inj (hc.symm.trans hd)
    have hold := h _ hc
    simp only [hpc] at hold
    exact hold halive
  | reopen frame hpc hdead =>
    intro c hc halive
    rw [hdead c hc] at halive
    cases halive
  | opened frame hpc =>
    rintro _ ⟨⟩
    exact TxConn.clean_opened
  | failed frame hpc => exact traffic_finish fun c hc => by simpa only [hpc] using h c hc
  | stale frame hpc hc hresp =>
    have hold := h _ hc
    simp only [hpc] at hold
    rw [hold.responses] at hresp
    cases hresp
  | drained frame hpc =>
    intro c hc
    simpa only [hpc] using h c hc
  | write frame hpc hc =>
    have hold := h _ hc
    simp only [hpc] at hold
    rintro _ ⟨⟩
    exact hold.write
  | wrote hpc =>
    intro c hc
    simpa only [hpc] using h c hc
  | respond hpc hc hresp =>
    have hold := h _ hc
    simp only [hpc] at hold
    exact traffic_finish fun _ => by
      rintro ⟨⟩ -
      exact (hold.recv hresp).2
  | abandon hpc hc => exact traffic_finish fun _ => by rintro ⟨⟩ ⟨⟩

theorem traffic_step {a : TxAct} (h : s.Traffic) (hst : s.step render a = some s') : s'.Traffic := by
  cases a with
  | connect =>
    simp only [step] at hst
    split at hst
    · rename_i hpc
      cases hst
      rintro _ ⟨⟩
      simp only [hpc]
      exact fun _ => TxConn.clean_opened
    · cases hst
  | call a => exact traffic_call h (callStep_moves hst)
  | conn a =>
    obtain ⟨c, hc, hst⟩ := Option.bind_eq_some_iff.mp hst
    obtain ⟨c', hc', rfl⟩ := Option.map_eq_some_iff.mp hst
    exact traffic_conn h hc hc'
  | server a =>
    obtain ⟨c, hc, hst⟩ := Option.bind_eq_some_iff.mp hst
    exact traffic_server h hc hst

/-! ## The logs -/

/-- The calls before this one have had their chance to write. -/
def nextFrame (s : TxRun) : ℕ := if s.pc.unwritten then s.calls else s.calls + 1

/-- The calls before this one have returned. -/
def nextReturn (s : TxRun) : ℕ :=
  match s.pc with
  | .idle => s.calls + 1
  | _ => s.calls

/-- The frames that the server has yet to answer. -/
def unanswered (s : TxRun) : List ℕ := (s.conn.map TxConn.unanswered).getD []

/-- The logs are consistent: a frame is written once and answered at most once, and what a call returned is
in accord with both. -/
structure Logs (render : Json → String) (s : TxRun) : Prop where
  once : (s.written.map (·.1)).Nodup
  written : ∀ k ∈ s.written.map (·.1), k < s.nextFrame
  answered : (s.answers.map (·.1) ++ s.unanswered).Nodup
  asked : s.answers.map (·.1) ++ s.unanswered ⊆ s.written.map (·.1)
  returned : ∀ r ∈ s.returned, r.1 < s.nextReturn
  definite : ∀ r ∈ s.returned, r.2.status = .ok ∨ r.2.status = .rejected →
    ∃ resp, (r.1, some resp) ∈ s.answers ∧ r.2 = sendBatch render (.response resp)
  notSent : ∀ r ∈ s.returned, r.2.status = .notSent → r.1 ∉ s.written.map (·.1)

/-- A step that writes nothing to the logs. -/
theorem Logs.frame (h : Logs render s) (hw : s'.written = s.written) (ha : s'.answers = s.answers)
    (hr : s'.returned = s.returned) (hun : s'.unanswered.Sublist s.unanswered)
    (hframe : s'.nextFrame = s.nextFrame) (hret : s'.nextReturn = s.nextReturn) : Logs render s' := by
  refine ⟨?_, ?_, ?_, ?_, ?_, ?_, ?_⟩
  · rw [hw]
    exact h.once
  · rw [hw, hframe]
    exact h.written
  · rw [ha]
    exact h.answered.sublist (hun.append_left _)
  · rw [ha, hw]
    exact List.Subset.trans (hun.append_left _).subset h.asked
  · rw [hr, hret]
    exact h.returned
  · rw [hr, ha]
    exact h.definite
  · rw [hr, hw]
    exact h.notSent

/-- A report with a definite outcome comes from a response. -/
theorem definite_response {reply : Reply}
    (h : (sendBatch render reply).status = .ok ∨ (sendBatch render reply).status = .rejected) :
    ∃ resp, reply = .response resp := by
  cases reply with
  | response resp => exact ⟨resp, rfl⟩
  | connectFailed | sendFailed | disconnected | timedOut =>
    rcases h with h | h
    · cases h
    · cases h

theorem notSent_connectFailed {reply : Reply} (h : (sendBatch render reply).status = .notSent) :
    reply = .connectFailed := by
  cases reply with
  | connectFailed => rfl
  | response resp =>
    simp only [sendBatch] at h
    split at h
    · cases h
    · cases h
  | sendFailed | disconnected | timedOut => cases h

/-- The frame of the call. -/
theorem Logs.write {frame : Json} (h : Logs render s) (hpc : s.pc = .drained frame) (hc : s.conn = some c) :
    Logs render
      { s with conn := some { c with unanswered := c.unanswered ++ [s.calls] }, pc := .writing,
               written := s.written ++ [(s.calls, frame)] } := by
  have hun : s.unanswered = c.unanswered := by
    unfold unanswered
    rw [hc]
    rfl
  have hwritten := h.written
  have hreturned := h.returned
  have hanswered := h.answered
  have hasked := h.asked
  simp only [nextFrame, nextReturn, hpc, CallPc.unwritten, if_true, hun] at hwritten hreturned hanswered hasked
  have hnew : s.calls ∉ s.written.map (·.1) := fun hmem => lt_irrefl _ (hwritten _ hmem)
  refine ⟨?_, ?_, ?_, ?_, hreturned, h.definite, ?_⟩
  · rw [List.map_append]
    exact h.once.append (List.nodup_singleton _) (by simpa using hnew)
  · intro k hk
    rw [List.map_append, List.mem_append] at hk
    rcases hk with hk | hk
    · exact (hwritten k hk).trans (Nat.lt_succ_self _)
    · obtain rfl := List.mem_singleton.mp hk
      exact Nat.lt_succ_self _
  · show (s.answers.map (·.1) ++ (c.unanswered ++ [s.calls])).Nodup
    rw [← List.append_assoc]
    refine hanswered.append (List.nodup_singleton _) ?_
    simpa using fun hmem => hnew (hasked hmem)
  · show s.answers.map (·.1) ++ (c.unanswered ++ [s.calls]) ⊆ _
    rw [← List.append_assoc, List.map_append]
    exact List.append_subset.mpr ⟨List.Subset.trans hasked (List.subset_append_left _ _),
      List.subset_append_right _ _⟩
  · intro r hr hstatus hmem
    rw [List.map_append, List.mem_append] at hmem
    rcases hmem with hmem | hmem
    · exact h.notSent r hr hstatus hmem
    · exact (hreturned r hr).ne (List.mem_singleton.mp hmem)

/-- The server answers the oldest frame. -/
theorem Logs.answer {body : Option Json} {k : ℕ} {rest : List ℕ} (h : Logs render s) (hc : s.conn = some c)
    (hk : c.unanswered = k :: rest) :
    Logs render
      { s with conn := some { c with unanswered := rest, inbound := c.inbound ++ [.text body] },
               answers := s.answers ++ [(k, body)] } := by
  have hun : s.unanswered = k :: rest := by
    unfold unanswered
    rw [hc]
    exact hk
  have hmoved : (s.answers ++ [(k, body)]).map (·.1) ++ rest = s.answers.map (·.1) ++ s.unanswered := by
    rw [hun, List.map_append, List.append_assoc]
    rfl
  refine ⟨h.once, h.written, ?_, ?_, h.returned, fun r hr hstatus => ?_, h.notSent⟩
  · show ((s.answers ++ [(k, body)]).map (·.1) ++ rest).Nodup
    rw [hmoved]
    exact h.answered
  · show (s.answers ++ [(k, body)]).map (·.1) ++ rest ⊆ _
    rw [hmoved]
    exact h.asked
  · obtain ⟨resp, hresp, heq⟩ := h.definite r hr hstatus
    exact ⟨resp, List.mem_append_left _ hresp, heq⟩

/-- The call returns. -/
theorem Logs.finish {conn : Option TxConn} {reply : Reply} (h : Logs render s) (hpc : s.nextReturn = s.calls)
    (hun : ((conn.map TxConn.unanswered).getD []).Sublist s.unanswered)
    (hresp : ∀ resp, reply = .response resp → (s.calls, some resp) ∈ s.answers)
    (hfailed : reply = .connectFailed → s.pc.unwritten = true) : Logs render (s.finish render conn reply) := by
  refine ⟨h.once, fun k hk => ?_, ?_, ?_, ?_, ?_, ?_⟩
  · have hlt := h.written k hk
    unfold nextFrame at hlt
    show k < s.calls + 1
    split at hlt
    · exact hlt.trans (Nat.lt_succ_self _)
    · exact hlt
  · exact h.answered.sublist (hun.append_left _)
  · exact List.Subset.trans (hun.append_left _).subset h.asked
  · intro r hr
    show r.1 < s.calls + 1
    rcases List.mem_append.mp hr with hr | hr
    · exact (hpc ▸ h.returned r hr).trans (Nat.lt_succ_self _)
    · obtain rfl := List.mem_singleton.mp hr
      exact Nat.lt_succ_self _
  · intro r hr hstatus
    rcases List.mem_append.mp hr with hr | hr
    · exact h.definite r hr hstatus
    · obtain rfl := List.mem_singleton.mp hr
      obtain ⟨resp, rfl⟩ := definite_response hstatus
      exact ⟨resp, hresp resp rfl, rfl⟩
  · intro r hr hstatus hmem
    rcases List.mem_append.mp hr with hr | hr
    · exact h.notSent r hr hstatus hmem
    · obtain rfl := List.mem_singleton.mp hr
      have hlt := h.written _ hmem
      unfold nextFrame at hlt
      rw [hfailed (notSent_connectFailed hstatus)] at hlt
      exact lt_irrefl _ hlt

theorem logs_call (h : Logs render s) (ht : s.Traffic) (hmove : CallMove render s s') : Logs render s' := by
  cases hmove with
  | reuse frame hpc | reopen frame hpc =>
    refine h.frame rfl rfl rfl (List.Sublist.refl _) ?_ ?_
    · simp [nextFrame, hpc, CallPc.unwritten]
    · simp [nextReturn, hpc]
  | opened frame hpc =>
    refine h.frame rfl rfl rfl (List.nil_sublist _) ?_ ?_
    · simp [nextFrame, hpc, CallPc.unwritten]
    · simp [nextReturn, hpc]
  | failed frame hpc =>
    refine h.finish ?_ (List.Sublist.refl _) (fun resp hresp => by cases hresp) fun _ => ?_
    · simp [nextReturn, hpc]
    · simp [hpc, CallPc.unwritten]
  | stale frame hpc hc =>
    refine h.frame rfl rfl rfl ?_ rfl rfl
    simp [unanswered, hc]
  | drained frame hpc | wrote hpc =>
    refine h.frame rfl rfl rfl (List.Sublist.refl _) ?_ ?_
    · simp [nextFrame, hpc, CallPc.unwritten]
    · simp [nextReturn, hpc]
  | write frame hpc hc => exact h.write hpc hc
  | respond hpc hc hresp =>
    have howes := ht _ hc
    simp only [hpc] at howes
    refine h.finish ?_ ?_ (fun v hv => ?_) fun hfail => by cases hfail
    · simp [nextReturn, hpc]
    · simp [unanswered, hc]
    · cases hv
      exact (howes.recv hresp).1
  | abandon hpc hc hresp hwritten =>
    refine h.finish ?_ ?_ (fun resp hr => absurd hr (hresp resp)) fun hr => absurd hr hwritten
    · rcases hpc with hpc | hpc <;> simp [nextReturn, hpc]
    · simp [unanswered, hc, TxConn.kill]

theorem logs_server {a : ServerAct} (h : Logs render s) (hc : s.conn = some c)
    (hst : s.serverStep c a = some s') : Logs render s' := by
  cases a with
  | answer body =>
    simp only [serverStep] at hst
    split at hst
    · rename_i k rest hk
      cases hst
      exact h.answer hc hk
    · cases hst
  | ignore =>
    simp only [serverStep] at hst
    split at hst
    · rename_i k rest hk
      cases hst
      refine h.frame rfl rfl rfl ?_ rfl rfl
      simp [unanswered, hc, hk]
    · cases hst
  | info m =>
    obtain ⟨-, rfl⟩ := Option.ite_some_none_eq_some.mp hst
    refine h.frame rfl rfl rfl ?_ rfl rfl
    simp [unanswered, hc]

theorem logs_step {a : TxAct} (h : Logs render s) (ht : s.Traffic) (hst : s.step render a = some s') :
    Logs render s' := by
  cases a with
  | connect =>
    simp only [step] at hst
    split at hst
    · cases hst
      exact h.frame rfl rfl rfl (List.nil_sublist _) rfl rfl
    · cases hst
  | call a => exact logs_call h ht (callStep_moves hst)
  | conn a =>
    obtain ⟨c, hc, hst⟩ := Option.bind_eq_some_iff.mp hst
    obtain ⟨c', hc', rfl⟩ := Option.map_eq_some_iff.mp hst
    refine h.frame rfl rfl rfl ?_ rfl rfl
    simp [unanswered, hc, (TxConn.step_spec hc').1]
  | server a =>
    obtain ⟨c, hc, hst⟩ := Option.bind_eq_some_iff.mp hst
    exact logs_server h hc hst

/-! ## The outcome of a call -/

theorem start_traffic : start.Traffic := fun _ hc => by cases hc

theorem start_logs : Logs render start := by
  constructor <;> simp [start, unanswered]

theorem reach_logs (h : Trans.Reach (step render) start s) : Logs render s := by
  have hinv : s.Traffic ∧ Logs render s := by
    refine h.invariant (I := fun s => s.Traffic ∧ Logs render s) ⟨start_traffic, start_logs⟩ ?_
    rintro s a s' ⟨ht, hl⟩ - hst
    exact ⟨traffic_step ht hst, logs_step hl ht hst⟩
  exact hinv.2

/-- **No outcome is misattributed**: a definite outcome is read from the server's answer to the frame of the
call itself; a call reported as not sent has no frame; and no frame is written twice. -/
theorem outcomes_attributed (h : Trans.Reach (step render) start s) :
    (∀ call report, (call, report) ∈ s.returned → report.status = .ok ∨ report.status = .rejected →
      ∃ resp, s.AnswerTo call resp ∧ report = sendBatch render (.response resp)) ∧
      (∀ call report, (call, report) ∈ s.returned → report.status = .notSent →
        ∀ frame, (call, frame) ∉ s.written) ∧
      (s.written.map (·.1)).Nodup := by
  have hlogs := reach_logs h
  refine ⟨fun call report hret hstatus => ?_, fun call report hret hstatus frame hframe => ?_, hlogs.once⟩
  · obtain ⟨resp, hresp, hreport⟩ := hlogs.definite _ hret hstatus
    have honce : (s.answers.map (·.1)).Nodup := hlogs.answered.of_append_left
    refine ⟨resp, ⟨hresp, fun body hbody => ?_⟩, hreport⟩
    exact (Prod.mk.inj (List.inj_on_of_nodup_map honce hbody hresp rfl)).2
  · exact hlogs.notSent _ hret hstatus (List.mem_map.mpr ⟨_, hframe, rfl⟩)

/-- A call times out and its answer comes late, on a connection that the next call replaces. -/
def lateAnswer : List TxAct :=
  [.call (.call [14] ["a"]), .call (.opened true), .call .tryRecv, .call .write, .call (.wrote none),
    .call .timeout, .server (.answer (some (.obj [("code", .int 200)]))), .conn (.read true),
    .call (.call [15] ["b"]), .call (.opened true), .call .tryRecv, .call .write, .call (.wrote none),
    .server (.answer (some (.obj [("code", .int 21104)]))), .conn (.read true), .call .recv,
    .call (.call [14] ["c"]), .call .tryRecv, .call .write, .conn .disconnected,
    .call (.wrote (some "closed")), .call (.call [14] ["d"]), .call (.opened false)]

/-- The late answer is not taken for that to the second frame. -/
theorem outcomes_attributed_late : ∃ s, Trans.run (step fun _ => "") start lateAnswer = some s ∧
    s.returned.map (fun r => (r.1, r.2.status)) =
      [(1, .unknown), (2, .rejected), (3, .unknown), (4, .notSent)] ∧
    (∀ call report, (call, report) ∈ s.returned → report.status = .ok ∨ report.status = .rejected →
      ∃ resp, s.AnswerTo call resp ∧ report = sendBatch (fun _ => "") (.response resp)) ∧
      (∀ call report, (call, report) ∈ s.returned → report.status = .notSent →
        ∀ frame, (call, frame) ∉ s.written) ∧
      (s.written.map (·.1)).Nodup := by
  have hrun : (Trans.run (step fun _ => "") start lateAnswer).map
      (fun s => s.returned.map fun r => (r.1, r.2.status)) =
        some [(1, .unknown), (2, .rejected), (3, .unknown), (4, .notSent)] := by decide +kernel
  obtain ⟨s, hs, hret⟩ := Option.map_eq_some_iff.mp hrun
  exact ⟨s, hs, hret, outcomes_attributed (Trans.reach_iff_run.mpr ⟨_, hs⟩)⟩

end TxRun

end LighterMM
