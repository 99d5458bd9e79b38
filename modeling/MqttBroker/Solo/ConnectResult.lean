import MqttBroker.Solo.Receiver
import MqttBroker.Solo.Waiters

/-!
# The result of a CONNECT

The handler of a CONNACK stores `connected`, and then writes the error of the connect token
and completes it; `Close` completes the token of a CONNECT that no CONNACK has answered. For
a return code that `ConnErrors` has no entry for, the handler completes the token without an
error on a session that is not connected. `Close` does not wait for the handler where the
channel has stopped before, and then the two may be at it at once; and `Send` may put another
token into the field between the two operations of the handler. In all other runs the token
of a CONNECT has an error when it completes exactly if the session is not connected.
-/

namespace MqttBroker.Solo

variable {cfg : Config} {f f' : Flags} {x x' : Outbox}

/-! ## The token of a CONNECT -/

/-- The entry of a CONNECT. -/
def Outbox.connects (x : Outbox) (e : EntryRef) : Prop :=
  (x.packet (x.entry e).msg).kind = PacketType.connect

instance (x : Outbox) (e : EntryRef) : Decidable (x.connects e) :=
  inferInstanceAs (Decidable (_ = _))

/-- `Error()` of an entry's token. -/
def Outbox.err (x : Outbox) (e : EntryRef) : Option GoError := (x.entry e).t.bind Token.err

/-- A token that is not complete has an error exactly if the session is not connected. -/
def Agrees (x : Outbox) (f : Flags) (e : EntryRef) : Prop :=
  x.isComplete e = false → (x.err e = none ↔ f.isConnected)

@[simp] theorem note_err (ev : Event) (x : Outbox) (e : EntryRef) :
    (x.note ev).err e = x.err e := rfl

theorem modifyEntry_err {g : Entry → Entry} {e : EntryRef}
    (hg : (g (x.entry e)).t.bind Token.err = (x.entry e).t.bind Token.err) (e' : EntryRef) :
    (x.modifyEntry e g).err e' = x.err e' := by
  unfold Outbox.err
  by_cases h : e' = e
  · rw [h, Outbox.modifyEntry_self, hg]
  · rw [Outbox.modifyEntry_of_ne g x h]

theorem updateInflight_err (r : PacketRef) (x : Outbox) (e : EntryRef) :
    (x.updateInflight r).err e = x.err e := by
  refine updateInflight_induct (P := fun y => y.err e = x.err e) r x rfl ?_
  intro y e' _ hy
  rw [note_err, ← hy]
  exact modifyEntry_err rfl e

theorem assignToken_err (e e' : EntryRef) (p : ControlPacket) (x : Outbox) :
    (assignToken e p x).err e' = x.err e' := by
  cases p with
  | subscribe m =>
    refine modifyEntry_err (x := x) (e := e) ?_ e'
    dsimp only
    cases (x.entry e).t with
    | _ => rfl
  | _ => rfl

theorem newToken_err (tType : UInt8) : (newToken tType).bind Token.err = none := by
  unfold newToken
  split <;> rfl

/-- Only `connectErr` writes the error of a connect token. -/
theorem MsgOp.Ran.err {o : MsgOp} {new : List MsgOp} (h : Ran cfg f x o new x') {e : EntryRef}
    (hsuback : ∀ r, o ≠ .subackResults e r) :
    x'.err e = x.err e ∨ ∃ code, o = .connectErr code ∧ x.connectToken = some e := by
  cases h with
  | newInflight c timeout | resend e' now timeout => exact .inl (modifyEntry_err rfl e)
  | send e' _ => exact .inl (assignToken_err e' e _ x)
  | @subackResults e' r t t' ht _ =>
    have hne : e ≠ e' := fun h => hsuback r (h ▸ rfl)
    refine .inl ?_
    rw [Outbox.err, Outbox.modifyEntry_of_ne _ x hne]
    rfl
  | @flowComplete e' t ht _ =>
    refine .inl ?_
    rw [note_err, modifyEntry_err]
    rw [ht]
    rfl
  | updateInflight r => exact .inl (updateInflight_err r x e)
  | @connectErr e' code he =>
    by_cases hne : e = e'
    · exact .inr ⟨code, rfl, hne ▸ he⟩
    · refine .inl ?_
      rw [Outbox.err, Outbox.modifyEntry_of_ne _ x hne]
      rfl
  | _ => exact .inl rfl

/-- The error that the operation writes is the one of its code. -/
theorem setConnectErr_err {code : Option UInt8} {i : Entry} (hsome : i.t.isSome = true) :
    (setConnectErr code i).t.bind Token.err =
      match code with
      | none => some (.new "timeout")
      | some code => if code ≠ 0 then connErrors code else i.t.bind Token.err := by
  obtain ⟨t, ht⟩ := Option.isSome_iff_exists.mp hsome
  unfold setConnectErr
  rw [ht]
  cases code with
  | none => rfl
  | some code =>
    dsimp only [Option.map_some, Option.bind_some]
    split <;> rfl

/-! ## The condition -/

/-- There is a connect token that is not complete. -/
def Outbox.awaits (x : Outbox) : Bool := x.connectToken.any fun e => !x.isComplete e

/-- An operation on the way from an error that is written, or is about to be by `Close`, to the
completion of the token. -/
def Op.completes (x : Outbox) : Op → Bool
  | .msg (.connectErr none) | .msg .completeConnect => x.awaits
  | .msg (.flowComplete e) => x.connects e ∧ x.isComplete e = false
  | _ => false

/-- The return code that a handler writes into the token. -/
def MsgOp.returnCode : MsgOp → Option UInt8
  | connectErr code => code
  | _ => none

/-- The entry at the switch of `Send`. -/
def MsgOp.sends : MsgOp → Option EntryRef
  | send e => some e
  | _ => none

/-- What a handler stores in `connected`. -/
def EndOp.stored : EndOp → Option ℤ
  | storeConnected connected => some connected
  | _ => none

/-- `ConnErrors` has an entry for the return code of a CONNACK that refuses; `Send` does not put
another token into the field between the two operations on a token that gets an error; and no
handler changes whether the session is connected while a token is on its way to its
completion. -/
def ResultKept (s : Solo) (t : Solo.Turn) : Prop :=
  (∀ o ∈ t.msgOp s, ∀ code ∈ o.returnCode, s.outbox.awaits = true → code ≠ 0 →
    (connErrors code).isSome = true) ∧
  (∀ o ∈ t.msgOp s, ∀ e ∈ o.sends, s.flags.isStoped = false → s.outbox.connects e →
    .msg .completeConnect ∈ s.goroutines.ops → s.flags.isConnected) ∧
  ∀ o ∈ t.endOp s, ∀ connected ∈ o.stored,
    (∃ o' ∈ s.goroutines.ops, o'.completes s.outbox = true) →
      (0 < connected ↔ s.flags.isConnected)

instance (s : Solo) (t : Solo.Turn) : Decidable (ResultKept s t) :=
  inferInstanceAs (Decidable ((∀ o ∈ _, ∀ code ∈ _, _ → _ → _) ∧
    (∀ o ∈ _, ∀ e ∈ _, _ → _ → _ → _) ∧ ∀ o ∈ _, ∀ n ∈ _, (∃ o' ∈ _, _) → (_ ↔ _)))

/-! ## What the operations are to find -/

/-- A token that has not come to its switch has no error and is not in the field; what is in
flight is no CONNECT; and what completes a connect token has the right error. -/
def MsgOp.Fits (x : Outbox) (f : Flags) : MsgOp → Prop
  | send e => x.connects e → x.err e = none ∧ x.connectToken ≠ some e
  | newInflight c | pushInflight c => ¬ x.connects c.entry
  | subackResults e _ => ¬ x.connects e
  | connectErr none =>
    f.isStoped = true ∧ ∀ e ∈ x.connectToken, x.isComplete e = false → ¬ f.isConnected
  | completeConnect => ∀ e ∈ x.connectToken, Agrees x f e
  | flowComplete e => x.connects e → Agrees x f e
  | _ => True

/-- `Close` comes to the connect token on a channel that has stopped. -/
def EndOp.Fits (f : Flags) : EndOp → Prop
  | closeConn | openedFiles | stopSend | waitSend | stopRecv | waitRecv | loadConnected
  | loadConnectedZero => f.isStoped = true
  | _ => True

def Op.Fits (x : Outbox) (f : Flags) : Op → Prop
  | .msg o => o.Fits x f
  | .stop o => o.Fits f

structure Results (s : Solo) : Prop where
  ops : ∀ o ∈ s.goroutines.ops, o.Fits s.outbox s.flags
  inflight : ∀ e ∈ s.outbox.inflightingList, ¬ s.outbox.connects e
  /-- A token in the field with an error is about to be completed. -/
  written : ∀ e ∈ s.outbox.connectToken, s.outbox.isComplete e = false →
    s.outbox.err e ≠ none → ¬ s.flags.isConnected ∧
      (.msg .completeConnect ∈ s.goroutines.ops ∨ .msg (.flowComplete e) ∈ s.goroutines.ops)

theorem Grows.connects (h : Grows x x') (hx : x.Heaps) {e : EntryRef} (he : e < x.entries.next) :
    x'.connects e ↔ x.connects e := by
  rw [Outbox.connects, Outbox.connects, h.kind_msg hx he]

theorem not_connects_of_tracked {e : EntryRef} (he : x.Tracked e) : ¬ x.connects e := by
  intro hc
  have hmem := he.2
  rw [hc] at hmem
  exact absurd hmem (by decide)

theorem not_connects_of_published {e : EntryRef} (hx : x.Heaps) (he : x.Published e) :
    ¬ x.connects e :=
  not_connects_of_tracked (he.tracked hx)

/-- What an operation leaves fits. -/
theorem MsgOp.Ran.fits {o : MsgOp} {new : List MsgOp} (h : Ran cfg f x o new x')
    (hx : x.Heaps) (hl : x.Lists) (ho : o.Typed x) (hfits : o.Fits x f)
    (hinflight : ∀ e ∈ x.inflightingList, ¬ x.connects e)
    (htold : ∀ code e, o = .connectErr code → x.connectToken = some e → Agrees x' f e) :
    ∀ o' ∈ new, o'.Fits x' f := by
  have hg := h.grows
  cases h with
  | @numberSend e id _ =>
    refine List.forall_mem_singleton.mpr fun hc => ?_
    exact not_connects_of_tracked ho ((hg.connects hx ho.1).mp hc)
  | inserted c _ =>
    exact List.forall_mem_singleton.mpr (not_connects_of_published hx ho)
  | newInflight c timeout =>
    refine List.forall_mem_singleton.mpr fun hc => ?_
    exact hfits ((hg.connects hx ho.1).mp hc)
  | pushInflight c =>
    cases c with
    | _ => exact List.forall_mem_singleton.mpr trivial
  | send e _ =>
    intro o' ho'
    rcases mem_sendCase ho' with rfl | ⟨rfl, hk⟩ | rfl
    · trivial
    · intro hc
      have hkind := (hg.connects hx ho.1).mp hc
      rw [hkind] at hk
      exact absurd hk (by decide)
    · trivial
  | refused c _ =>
    intro o' ho'
    rw [mem_rest ho']
    trivial
  | channelStoped c r _ | pushSend c r =>
    intro o' ho'
    obtain ⟨_, -, rfl⟩ := mem_rest_of_mem_elim ho'
    trivial
  | collect now =>
    refine List.forall_mem_map.mpr fun e _ => ?_
    trivial
  | @removeInflight e r id hfind =>
    have hmem : e ∈ x.inflightingList := List.mem_of_find?_eq_some hfind
    intro o' ho'
    rcases mem_afterRemove ho' with rfl | rfl
    · exact fun hc => absurd hc (hinflight e hmem)
    · exact hinflight e hmem
  | @subackResults e r t t' _ _ =>
    refine List.forall_mem_singleton.mpr fun hc => ?_
    exact absurd ((hg.connects hx ho.1).mp hc) hfits
  | writedQos0 _ _ =>
    intro o' ho'
    rcases mem_onInflightDone ho' with rfl | rfl <;> trivial
  | connectErr code he =>
    refine List.forall_mem_singleton.mpr fun e' he' => ?_
    exact htold code e' rfl he'
  | completeConnect =>
    intro o' ho'
    obtain ⟨e, he, rfl⟩ := mem_handshake ho'
    exact fun _ => hfits e he
  | completeDisconnect =>
    intro o' ho'
    obtain ⟨e, he, rfl⟩ := mem_handshake ho'
    intro hc
    exact absurd (hc.symm.trans (hl.disconnectToken e he).2) (by decide)
  | onPubrec messageID => simp [MsgOp.Fits]
  | _ => simp [MsgOp.Fits]

theorem EndOp.Ran.fits {o : EndOp} {next : List Op} {spawned : Pool Op}
    (h : Ran x f o next spawned f') (ho : o.Fits f) :
    ∀ o' ∈ next ++ Pool.ops spawned, o'.Fits x f' := by
  cases h with
  | @received r cleared _ _ =>
    rw [Pool.ops, List.flatten_nil, List.append_nil]
    intro o' ho'
    cases handles_of_mem ho' with
    | _ => trivial
  | onTick timedOut _ =>
    cases timedOut with
    | _ => simp [Op.Fits, MsgOp.Fits, EndOp.Fits]
  | clientTimeout l hl =>
    rw [Pool.ops, List.flatten_nil, List.append_nil]
    refine List.forall_mem_map.mpr fun o ho => ?_
    rw [List.mem_singleton.mp (hl ho)]
    trivial
  | channelStoped hs => exact List.forall_mem_singleton.mpr hs
  | stopChannel => exact List.forall_mem_singleton.mpr rfl
  | closeConn | openedFiles | stopSend _ | sendOver _ | waitSend _ | stopRecv _ | recvOver _
  | waitRecv _ | clientNotConnected _ _ => exact List.forall_mem_singleton.mpr ho
  | connectTimeout hzero =>
    refine List.forall_mem_cons.mpr ⟨⟨ho, fun e _ _ => ?_⟩, List.forall_mem_singleton.mpr trivial⟩
    rw [Flags.isConnected, hzero]
    decide
  | _ => simp [Op.Fits, MsgOp.Fits, EndOp.Fits]

/-! ## One turn -/

section Turns

variable {s s' : Solo} {t : Solo.Turn}

theorem isComplete_of_flowComplete {e : EntryRef} (ho : .flowComplete e ∈ t.msgOp s)
    (h : Solo.step cfg t s = some s') : s'.outbox.isComplete e = true := by
  obtain ⟨i, rfl, hnext⟩ := nextOp_of_msgOp ho
  obtain ⟨new, hrun, -⟩ := run_of_nextOp hnext h
  have hran := MsgOp.ran_of_run hrun
  generalize s'.outbox = x' at hran ⊢
  cases hran with
  | flowComplete _ _ =>
    rw [note_isComplete, Outbox.isComplete, Outbox.modifyEntry_self]
    rfl

end Turns

/-- A turn that meets the condition, with what is known before it. -/
structure ResultStep (cfg : Config) (s : Solo) (t : Solo.Turn) (s' : Solo) : Prop where
  step : Solo.step cfg t s = some s'
  kept : ResultKept s t
  typed : Typed s
  receives : Receives s
  results : Results s
  calls : Calls s
  complete : ∀ e < s.outbox.entries.next, s.outbox.isComplete e = true →
    s'.outbox.isComplete e = true

namespace ResultStep

variable {s s' : Solo} {t : Solo.Turn} {e : EntryRef}

theorem grows (h : ResultStep cfg s t s') : Grows s.outbox s'.outbox := by
  obtain ⟨old, new, hx, hex⟩ := exchange_of_step h.step
  exact (hx.typed h.typed fun o ho => h.typed.ops o (hex.mem_old ho)).1

theorem incomplete (h : ResultStep cfg s t s') (he : e < s.outbox.entries.next)
    (hinc : s'.outbox.isComplete e = false) : s.outbox.isComplete e = false :=
  Bool.eq_false_of_not_eq_true fun hc =>
    absurd (hinc.symm.trans (h.complete e he hc)) Bool.false_ne_true

/-- Only `connectErr` writes the error of a connect token. -/
theorem err (h : ResultStep cfg s t s') (he : e < s.outbox.entries.next)
    (hc : s.outbox.connects e) : s'.outbox.err e = s.outbox.err e ∨
      ∃ code, .connectErr code ∈ t.msgOp s ∧ s.outbox.connectToken = some e := by
  obtain ⟨old, new, hx, hex⟩ := exchange_of_step h.step
  generalize s'.outbox = x' at hx ⊢
  generalize s'.flags = f' at hx
  have hnewEntry : ∀ {y : Outbox} {r : PacketRef} {published : Bool},
      y.entries = s.outbox.entries → (y.newEntry r published).err e = s.outbox.err e := by
    intro y r published hy
    have hlt : e < y.entries.next := hy.symm ▸ he
    rw [Outbox.err, Outbox.newEntry_of_lt r published hlt, Outbox.err, Outbox.entry, hy]
  cases hx with
  | @msg i o _ _ hnext hran =>
    have hfits := h.results.ops (.msg o) (hex.mem_old (List.mem_singleton_self _))
    have hnot : ∀ r, o ≠ .subackResults e r := by
      rintro r rfl
      exact hfits hc
    rcases hran.err hnot with hsame | ⟨code, rfl, hfield⟩
    · exact .inl hsame
    · exact .inr ⟨code, Solo.Turn.msgOp_run hnext, hfield⟩
  | publish _ _ | send p => exact .inl (hnewEntry rfl)
  | _ => exact .inl rfl

/-- A token that gets its error: from a timeout, or from a CONNACK that says the same as
`connected`. -/
theorem of_connectErr (h : ResultStep cfg s t s') {code : Option UInt8}
    (hop : .connectErr code ∈ t.msgOp s) (he : s.outbox.connectToken = some e) :
    Agrees s'.outbox s'.flags e ∧ .msg .completeConnect ∈ s'.goroutines.ops := by
  obtain ⟨i, rfl, hnext⟩ := nextOp_of_msgOp hop
  obtain ⟨new, hrun, hex⟩ := run_of_nextOp hnext h.step
  have hflags := flags_of_msgOp hop h.step
  simp only [MsgOp.run, he] at hrun
  obtain ⟨rfl, hout⟩ := Prod.mk.inj (Option.some.inj hrun)
  refine ⟨fun hinc => ?_, hex.mem_new (List.mem_singleton_self _)⟩
  obtain ⟨hlt, hconnect⟩ := h.typed.lists.connectToken e he
  have hwaits := h.incomplete hlt hinc
  have hsome : (s.outbox.entry e).t.isSome = true := by
    rw [h.typed.heaps.token e hlt, hconnect]
    rfl
  have herr : s'.outbox.err e = (setConnectErr code (s.outbox.entry e)).t.bind Token.err := by
    rw [Outbox.err, ← hout, Outbox.modifyEntry_self]
  rw [herr, setConnectErr_err hsome, hflags]
  cases code with
  | none =>
    have hfits := h.results.ops _ (hex.mem_old (List.mem_singleton_self _))
    exact iff_of_false (by simp) (hfits.2 e he hwaits)
  | some code =>
    have hstored := h.receives.stored hnext
    by_cases hcode : code = 0
    · -- the token has no error from before
      subst hcode
      have hconnected := hstored.mpr rfl
      refine iff_of_true ?_ hconnected
      by_contra hne
      exact (h.results.written e he hwaits hne).1 hconnected
    · have hawaits : s.outbox.awaits = true := by
        rw [Outbox.awaits, he, Option.any_some, hwaits]
        rfl
      have hentry := h.kept.1 _ hop code rfl hawaits hcode
      refine iff_of_false ?_ (mt hstored.mp hcode)
      dsimp only
      rw [if_pos hcode]
      exact Option.isSome_iff_ne_none.mp hentry

/-- While a token is on its way to its completion, whether the session is connected does not
change. -/
theorem isConnected_iff (h : ResultStep cfg s t s') {o : Op} (ho : o ∈ s.goroutines.ops)
    (hcompletes : o.completes s.outbox = true) :
    s'.flags.isConnected ↔ s.flags.isConnected := by
  rcases connected_of_step h.step with hsame | ⟨i, n, rfl, hnext, hstored, -⟩
  · rw [Flags.isConnected, hsame]
  · rw [Flags.isConnected, hstored]
    exact h.kept.2.2 _ (Solo.Turn.endOp_run hnext) n rfl ⟨o, ho, hcompletes⟩

theorem agrees (h : ResultStep cfg s t s') {o : Op} (ho : o ∈ s.goroutines.ops)
    (hcompletes : s.outbox.isComplete e = false → o.completes s.outbox = true)
    (he : e < s.outbox.entries.next) (hc : s.outbox.connects e)
    (hagrees : Agrees s.outbox s.flags e) : Agrees s'.outbox s'.flags e := by
  rcases h.err he hc with hsame | ⟨code, hop, hfield⟩
  · intro hinc
    have hwaits := h.incomplete he hinc
    rw [hsame, h.isConnected_iff ho (hcompletes hwaits)]
    exact hagrees hwaits
  · exact (h.of_connectErr hop hfield).1

/-- The field keeps its token, or the switch of `Send` has put the one of a CONNECT into it. -/
theorem connectToken (h : ResultStep cfg s t s') :
    s'.outbox.connectToken = s.outbox.connectToken ∨ ∃ e, .send e ∈ t.msgOp s ∧
      s.flags.isStoped = false ∧ s.outbox.connects e ∧ s'.outbox.connectToken = some e := by
  obtain ⟨old, new, hx, -⟩ := exchange_of_step h.step
  exact hx.field connect_lawful

/-- The token that comes into the field has no error. -/
theorem err_of_send (h : ResultStep cfg s t s') (hop : .send e ∈ t.msgOp s)
    (hc : s.outbox.connects e) : s'.outbox.err e = none := by
  obtain ⟨i, rfl, hnext⟩ := nextOp_of_msgOp hop
  obtain ⟨new, hrun, hex⟩ := run_of_nextOp hnext h.step
  have hmem := hex.mem_old (List.mem_singleton_self _)
  have hlt : e < s.outbox.entries.next := (h.typed.ops _ hmem).1
  rcases h.err hlt hc with hsame | ⟨code, hcode, -⟩
  · rw [hsame]
    exact (h.results.ops _ hmem hc).1
  · exact absurd (Option.some.inj (hop.symm.trans hcode)) (by simp)

/-- A call comes to its switch once. -/
theorem send_notMem (h : ResultStep cfg s t s') (hop : .send e ∈ t.msgOp s) :
    .msg (.send e) ∉ s'.goroutines.ops := by
  obtain ⟨i, rfl, hnext⟩ := nextOp_of_msgOp hop
  obtain ⟨new, hrun, hex⟩ := run_of_nextOp hnext h.step
  have hran := MsgOp.ran_of_run hrun
  have hnew : ∀ o ∈ new.map Op.msg, decide (o = .msg (.send e)) = false := by
    refine List.forall_mem_map.mpr fun o ho => decide_eq_false fun heq => ?_
    rw [Op.msg.inj heq] at ho
    generalize s'.outbox = x' at hran
    cases hran with
    | sendStoped _ err => exact absurd ho (by simp)
    | send _ _ => exact absurd (mem_sendCase ho) (by simp)
  have hcount := hex.countP_eq fun o => decide (o = .msg (.send e))
  have hle : s.goroutines.ops.countP (fun o => decide (o = .msg (.send e))) ≤
      s.goroutines.ops.countP (Op.calls e) := by
    refine List.countP_mono_left fun o _ ho => ?_
    rw [of_decide_eq_true ho]
    exact decide_eq_true rfl
  have hone := h.calls e
  rw [countP_eq_zero_of_false hnew, List.countP_singleton, if_pos (decide_eq_true rfl)] at hcount
  have hzero : s'.goroutines.ops.countP (fun o => decide (o = .msg (.send e))) = 0 := by
    omega
  exact fun hmem => List.countP_eq_zero.mp hzero _ hmem (decide_eq_true rfl)

/-- An operation that was not done still fits. -/
theorem fits (h : ResultStep cfg s t s') {o : Op} (ho : o ∈ s.goroutines.ops)
    (ho' : o ∈ s'.goroutines.ops) : o.Fits s'.outbox s'.flags := by
  have hfits := h.results.ops o ho
  have htyped := h.typed.ops o ho
  have hconnects : ∀ {e : EntryRef}, e < s.outbox.entries.next →
      (s'.outbox.connects e ↔ s.outbox.connects e) := h.grows.connects h.typed.heaps
  have hstays : s.flags.isStoped = true → s'.flags.isStoped = true := by
    obtain ⟨old, new, hx, -⟩ := exchange_of_step h.step
    exact hx.stays.1
  cases o with
  | stop o =>
    cases o with
    | closeConn | openedFiles | stopSend | waitSend | stopRecv | waitRecv | loadConnected
    | loadConnectedZero => exact hstays hfits
    | _ => trivial
  | msg o =>
    cases o with
    | send e =>
      intro hc
      have hbefore := (hconnects htyped.1).mp hc
      refine ⟨?_, fun hfield => ?_⟩
      · rcases h.err htyped.1 hbefore with hsame | ⟨code, -, hfield⟩
        · rw [hsame]
          exact (hfits hbefore).1
        · exact absurd hfield (hfits hbefore).2
      · rcases h.connectToken with hsame | ⟨e', hop, -, -, hnew⟩
        · exact (hfits hbefore).2 (hsame.symm.trans hfield)
        · obtain rfl := Option.some.inj (hnew.symm.trans hfield)
          exact h.send_notMem hop ho'
    | newInflight c | pushInflight c => exact mt (hconnects htyped.1).mp hfits
    | subackResults e r => exact mt (hconnects htyped.1).mp hfits
    | connectErr code =>
      cases code with
      | some code => trivial
      | none =>
        refine ⟨hstays hfits.1, fun e he hinc => ?_⟩
        rcases h.connectToken with hsame | ⟨e', -, hrunning, -, -⟩
        · rw [hsame] at he
          have hwaits := h.incomplete (h.typed.lists.connectToken e he).1 hinc
          have hcompletes : Op.completes s.outbox (.msg (.connectErr none)) = true := by
            rw [Op.completes, Outbox.awaits, Option.mem_def.mp he, Option.any_some, hwaits]
            rfl
          rw [h.isConnected_iff ho hcompletes]
          exact hfits.2 e he hwaits
        · exact absurd (hrunning.symm.trans hfits.1) Bool.false_ne_true
    | completeConnect =>
      intro e he
      rcases h.connectToken with hsame | ⟨e', hop, hrunning, hc, hnew⟩
      · rw [hsame] at he
        obtain ⟨hlt, hc⟩ := h.typed.lists.connectToken e he
        refine h.agrees ho (fun hwaits => ?_) hlt hc (hfits e he)
        rw [Op.completes, Outbox.awaits, Option.mem_def.mp he, Option.any_some, hwaits]
        rfl
      · obtain rfl := Option.some.inj (hnew.symm.trans he)
        have hconnected := h.kept.2.1 _ hop e' rfl hrunning hc ho
        rw [← flags_of_msgOp hop h.step] at hconnected
        exact fun _ => iff_of_true (h.err_of_send hop hc) hconnected
    | flowComplete e =>
      intro hc
      have hbefore := (hconnects htyped).mp hc
      refine h.agrees ho (fun hwaits => ?_) htyped hbefore (hfits hbefore)
      exact decide_eq_true ⟨hbefore, hwaits⟩
    | _ => trivial

/-- What the goroutine is to do next fits. -/
theorem fits_new (h : ResultStep cfg s t s') {old new : List Op}
    (hx : Exchange cfg s t old new s'.outbox s'.flags)
    (hex : Pool.Exchanged old new s.goroutines s'.goroutines) :
    ∀ o ∈ new, o.Fits s'.outbox s'.flags := by
  have htold : ∀ code e, .connectErr code ∈ t.msgOp s → s.outbox.connectToken = some e →
      Agrees s'.outbox s'.flags e := fun _ _ hop he => (h.of_connectErr hop he).1
  have hbefore : ∀ o ∈ old, o.Fits s.outbox s.flags := fun o ho =>
    h.results.ops o (hex.mem_old ho)
  have htyped : ∀ o ∈ old, o.Typed s.outbox := fun o ho => h.typed.ops o (hex.mem_old ho)
  generalize s'.outbox = x' at hx htold ⊢
  generalize s'.flags = f' at hx htold ⊢
  cases hx with
  | @msg i o _ _ hnext hran =>
    refine List.forall_mem_map.mpr ?_
    refine hran.fits h.typed.heaps h.typed.lists (htyped _ (List.mem_singleton_self _))
      (hbefore _ (List.mem_singleton_self _)) h.results.inflight ?_
    exact fun code e ho he => htold code e (ho ▸ Solo.Turn.msgOp_run hnext) he
  | stop _ hrun => exact (EndOp.ran_of_run hrun).fits (hbefore _ (List.mem_singleton_self _))
  | send p =>
    refine List.forall_mem_singleton.mpr fun _ => ⟨?_, fun hfield => ?_⟩
    · rw [Outbox.err, show s.outbox.entries.next = (s.outbox.newPacket p.1).entries.next from rfl,
        Outbox.newEntry_self]
      exact newToken_err _
    · have hlt : s.outbox.entries.next < s.outbox.entries.next :=
        (h.typed.lists.connectToken _ hfield).1
      exact absurd hlt (Nat.lt_irrefl _)
  | round t new hnew =>
    refine List.forall_mem_map.mpr fun o ho => ?_
    have hround := hnew o ho
    cases o with
    | readFailed | onChannelError | recvExit | storeStoped | sendExit | onTick timedOut => trivial
    | _ => exact hround.elim
  | _ => simp [Op.Fits, MsgOp.Fits, EndOp.Fits]

theorem inflight (h : ResultStep cfg s t s') :
    ∀ e ∈ s'.outbox.inflightingList, ¬ s'.outbox.connects e := by
  obtain ⟨old, new, hx, hex⟩ := exchange_of_step h.step
  have hconnects : ∀ {e : EntryRef}, e < s.outbox.entries.next →
      (s'.outbox.connects e ↔ s.outbox.connects e) := h.grows.connects h.typed.heaps
  have hbefore : ∀ e ∈ s.outbox.inflightingList, ¬ s'.outbox.connects e := fun e he =>
    mt (hconnects (h.typed.lists.inflight e he)).mp (h.results.inflight e he)
  rcases hx.inflight with hsame | ⟨c, -, rfl, -, hpush⟩ | ⟨r, id, e, -, -, hremove⟩
  · rw [hsame]
    exact hbefore
  · have hmem : .msg (.pushInflight c) ∈ s.goroutines.ops :=
      hex.mem_old (List.mem_singleton_self _)
    have hlt : c.entry < s.outbox.entries.next := (h.typed.ops _ hmem).1
    rw [hpush, forall_mem_push]
    exact ⟨hbefore, mt (hconnects hlt).mp (h.results.ops _ hmem)⟩
  · rw [hremove] at hbefore ⊢
    exact fun e he => hbefore e (List.eraseP_subset he)

/-- A token in the field that has an error now had it before, or has just got it. -/
theorem written (h : ResultStep cfg s t s') (he : s'.outbox.connectToken = some e)
    (hinc : s'.outbox.isComplete e = false) (herr : s'.outbox.err e ≠ none) :
    ¬ s'.flags.isConnected ∧ (.msg .completeConnect ∈ s'.goroutines.ops ∨
      .msg (.flowComplete e) ∈ s'.goroutines.ops) := by
  rcases h.connectToken with hsame | ⟨e', hop, -, hc, hnew⟩
  · rw [hsame] at he
    obtain ⟨hlt, hc⟩ := h.typed.lists.connectToken e he
    have hwaits := h.incomplete hlt hinc
    rcases h.err hlt hc with herr' | ⟨code, hop, -⟩
    · obtain ⟨hnot, hops⟩ := h.results.written e he hwaits (herr' ▸ herr)
      have hawaits : s.outbox.awaits = true := by
        rw [Outbox.awaits, he, Option.any_some, hwaits]
        rfl
      refine ⟨?_, ?_⟩
      · rcases hops with hop | hop
        · exact mt (h.isConnected_iff hop hawaits).mp hnot
        · exact mt (h.isConnected_iff hop (decide_eq_true ⟨hc, hwaits⟩)).mp hnot
      · obtain ⟨old, new, hx, hex⟩ := exchange_of_step h.step
        rcases hops with hop | hop
        · rcases hex.mem_or_of_mem hop with hold | hop
          · obtain ⟨i, rfl, hnext⟩ := nextOp_of_msgOp (hx.msgOp hold)
            obtain ⟨_, hrun, hex⟩ := run_of_nextOp hnext h.step
            obtain ⟨rfl, -⟩ := Prod.mk.inj (Option.some.inj hrun)
            refine .inr (hex.mem_new ?_)
            rw [he]
            exact List.mem_singleton_self _
          · exact .inl hop
        · rcases hex.mem_or_of_mem hop with hold | hop
          · have hcomplete := isComplete_of_flowComplete (hx.msgOp hold) h.step
            exact absurd (hinc.symm.trans hcomplete) Bool.false_ne_true
          · exact .inr hop
    · obtain ⟨hagrees, hop⟩ := h.of_connectErr hop he
      exact ⟨mt (hagrees hinc).mpr herr, .inl hop⟩
  · obtain rfl := Option.some.inj (hnew.symm.trans he)
    exact absurd (h.err_of_send hop hc) herr

theorem results' (h : ResultStep cfg s t s') : Results s' where
  ops o ho := by
    obtain ⟨old, new, hx, hex⟩ := exchange_of_step h.step
    rcases hex.mem_or ho with hnew | hbefore
    · exact h.fits_new hx hex o hnew
    · exact h.fits hbefore ho
  inflight := h.inflight
  written _ he hinc herr := h.written he hinc herr

end ResultStep

/-! ## Runs -/

theorem results_initial (isServer : Bool) (now : ℤ) : Results (Solo.initial isServer now) where
  ops o ho := absurd ho (by simp [Solo.initial])
  inflight e he := absurd he (by simp [Solo.initial])
  written e he := absurd he (by simp [Solo.initial])

theorem complete_of_step {ok : Solo → Solo.Turn → Prop} {s s' : Solo} {t : Solo.Turn}
    (hs : (Solo.system cfg).Reach ok s) (hok : ok s t) (h : Solo.step cfg t s = some s')
    {e : EntryRef} (he : e < s.outbox.entries.next) (hc : s.outbox.isComplete e = true) :
    s'.outbox.isComplete e = true := by
  obtain ⟨old, new, hx, hex⟩ := exchange_of_step h
  have htyped := typed_of_reach hs
  have hg := (hx.typed htyped fun o ho => htyped.ops o (hex.mem_old ho)).1
  have hlog := (isComplete_of_reach hs e he).mp hc
  exact (isComplete_of_reach (hs.step hok h) e (hg.lt_entries he)).mpr (hx.log_sublist.subset hlog)

theorem resultStep_of_reach {s s' : Solo} {t : Solo.Turn}
    (hreach : (Solo.system cfg).Reach ResultKept s) (hreceives : Receives s)
    (hresults : Results s) (hok : ResultKept s t) (h : Solo.step cfg t s = some s') :
    ResultStep cfg s t s' where
  step := h
  kept := hok
  typed := typed_of_reach hreach
  receives := hreceives
  results := hresults
  calls := calls_of_reach hreach
  complete _ he hc := complete_of_step hreach hok h he hc

/-- In a run in which results are kept, when the token of a CONNECT completes it has an error
exactly if the session is not connected. -/
theorem connect_result {s s' : Solo} {t : Solo.Turn}
    (h : (Solo.system cfg).Reach ResultKept s) (hstep : Solo.step cfg t s = some s')
    {e : EntryRef} (hcompletes : .flowComplete e ∈ t.msgOp s) (hconnect : s.outbox.connects e) :
    s'.outbox.err e = none ↔ s'.flags.isConnected := by
  have hresults : (Solo.system cfg).Reach ResultKept s ∧ Receives s ∧ Results s := by
    refine h.invariant (I := fun s => (Solo.system cfg).Reach ResultKept s ∧ Receives s ∧
      Results s) ?_ ?_
    · rintro s ⟨isServer, now, rfl⟩
      exact ⟨.init (Solo.initial_init cfg isServer now), receives_initial isServer now,
        results_initial isServer now⟩
    · rintro s t s' ⟨hreach, hreceives, hresults⟩ hok hstep
      exact ⟨hreach.step hok hstep, receives_step hreceives hstep,
        (resultStep_of_reach hreach hreceives hresults hok hstep).results'⟩
  obtain ⟨i, rfl, hnext⟩ := nextOp_of_msgOp hcompletes
  obtain ⟨new, hrun, hex⟩ := run_of_nextOp hnext hstep
  have hfits := hresults.2.2.ops _ (hex.mem_old (List.mem_singleton_self _))
  rw [flags_of_msgOp hcompletes hstep]
  have hran := MsgOp.ran_of_run hrun
  generalize s'.outbox = x' at hran ⊢
  cases hran with
  | @flowComplete _ token htoken hincomplete =>
    have hwaits : s.outbox.isComplete e = false := by
      rw [Outbox.isComplete, htoken]
      exact hincomplete
    rw [note_err, modifyEntry_err (by rw [htoken]; rfl)]
    exact hfits hconnect hwaits

/-- A client session is started and sends a CONNECT, which is answered with a return code; the
token completes next. -/
def answering (returnCode : UInt8) : List Solo.Turn :=
  [.start, .send (outboundConnect [])] ++ Solo.runs 4 4 ++ [.sendRound true] ++ Solo.runs 1 1 ++
    [.recvPacket (inboundConnack returnCode) true] ++ Solo.runs 0 4

/-- The server is unavailable. -/
theorem connect_result_refused : ∃ s s', (Solo.system {}).Reach ResultKept s ∧
    Solo.step {} (.run 0) s = some s' ∧ .flowComplete 0 ∈ (Solo.Turn.run 0).msgOp s ∧
    (s'.outbox.err 0 = none ↔ s'.flags.isConnected) := by
  have hok : (Solo.system {}).checkAll (fun s t => decide (ResultKept s t)) (answering 3)
      (Solo.initial false 0) = true := by
    decide +kernel
  have hend : ((Solo.system {}).exec (answering 3) (Solo.initial false 0)).any (fun s =>
      .flowComplete 0 ∈ (Solo.Turn.run 0).msgOp s ∧ s.outbox.connects 0 ∧
        (Solo.step {} (.run 0) s).isSome = true) = true := by
    decide +kernel
  obtain ⟨s, hs, hc⟩ := StepSystem.exists_reach_of_any (Solo.initial_init {} false 0)
    (StepSystem.along_of_check (fun _ _ h => of_decide_eq_true h) hok) hend
  obtain ⟨hcompletes, hconnect, hsome⟩ := of_decide_eq_true hc
  obtain ⟨s', hstep⟩ := Option.isSome_iff_exists.mp hsome
  exact ⟨s, s', hs, hstep, hcompletes, connect_result hs hstep hcompletes hconnect⟩

/-- A return code outside `ConnErrors`: the token completes without an error. -/
theorem connect_result_unknown : ¬ ∀ (s s' : Solo) (t : Solo.Turn) (e : EntryRef),
    (Solo.system {}).Reachable s → s.flags.isServer = false → Solo.step {} t s = some s' →
    .flowComplete e ∈ t.msgOp s → s.outbox.connects e →
    (s'.outbox.err e = none ↔ s'.flags.isConnected) := by
  have hend : ((Solo.system {}).exec (answering 6) (Solo.initial false 0)).any (fun s =>
      s.flags.isServer = false ∧ .flowComplete 0 ∈ (Solo.Turn.run 0).msgOp s ∧
        s.outbox.connects 0 ∧ (Solo.step {} (.run 0) s).any (fun s' =>
          s'.outbox.err 0 = none ∧ s'.flags.connected = -6)) = true := by
    decide +kernel
  intro hall
  obtain ⟨s, hs, hc⟩ := StepSystem.exists_reachable_of_any (Solo.initial_init {} false 0) hend
  obtain ⟨hclient, hcompletes, hconnect, hnext⟩ := of_decide_eq_true hc
  obtain ⟨s', hstep, hlast⟩ := (Option.any_eq_true _ _).mp hnext
  obtain ⟨herr, hconnected⟩ := of_decide_eq_true hlast
  have := (hall s s' _ 0 hs hclient hstep hcompletes hconnect).mp herr
  rw [Flags.isConnected, hconnected] at this
  exact absurd this (by decide)

end MqttBroker.Solo
