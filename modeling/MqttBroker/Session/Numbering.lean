import MqttBroker.Session.SystemTheorems
import MqttBroker.Store.MemStore

/-!
# Message ids of deliveries

A delivery is a call of `Publish` on a session; the id that the session's counter gives it
is in the trace. The entry made for a delivery is recognised by its token. `Numbered` says
that every such entry still has the id of its delivery, and that no two entries of a
session have the same id. It is kept by the steps that meet `MayStep`: the packet of a call
of `Publish` is in nobody's lists, unless it has the right id already, and the id that is
handed out is not in use. `Publish` checks neither.
-/

namespace MqttBroker

open Broker GoM Exec

variable {σ : Type}

/-- Some list of the session has the packet, or a call of `Publish` that is blocked on it. -/
def Holds (w : SessionRef → List PacketAndToken) (b : Broker σ) (s : SessionRef)
    (r : PacketRef) : Prop :=
  (∃ pt ∈ w s ++ b.entries s, pt.p = r) ∨ r ∈ (b.sessions s).channel.iSendList

/-- No entry of the session has the id. -/
def Unused (w : SessionRef → List PacketAndToken) (b : Broker σ) (s : SessionRef)
    (id : UInt16) : Prop :=
  ∀ pt ∈ w s ++ b.entries s, b.idOf pt.p ≠ id

/-- Numbering a packet changes the id of no packet that is held, and gives no entry an id
that another one has. -/
def MayNumber (w : SessionRef → List PacketAndToken) (b : Broker σ) : Numbering → Prop
  | .nothing => True
  | .publish this msg =>
    (∀ s, Holds w b s msg → b.idOf msg = (b.sessions this).nextId) ∧
      ((b.sessions this).isConnected → ¬ (b.sessions this).isClosed →
        Unused w b this (b.sessions this).nextId)
  | .send this p =>
    Session.awaits p = true → Unused w b this ((b.sessions this).sentId p)

/-- A call of `Publish` is recorded with the id that the session's own counter gives. -/
def Recorded (b b' : Broker σ) : Numbering → Prop
  | .publish this _ => ∃ i, b'.publishes =
      b.publishes ++ [(this, some i, (b.sessions this).nextId)]
  | _ => b'.publishes = b.publishes

/-- Every entry that a delivery made has the id of the delivery, and only that entry. -/
structure Numbered (w : SessionRef → List PacketAndToken) (b : Broker σ) : Prop where
  delivered : ∀ s t id, (s, t, id) ∈ b.publishes → ∃ i, t = some i ∧ i < b.tokens.next ∧
    ∀ pt ∈ w s ++ b.entries s, pt.t = some i → b.idOf pt.p = id
  unique : ∀ s, ((w s ++ b.entries s).map fun pt => b.idOf pt.p).Nodup

theorem nodup_of_subperm {α : Type} {l l' : List α} (h : l.Subperm l') (hl : l'.Nodup) :
    l.Nodup := by
  obtain ⟨l₀, hperm, hsub⟩ := h
  exact hperm.nodup_iff.mp (hl.sublist hsub)

namespace Numbered

variable {w new : SessionRef → List PacketAndToken} {b b' : Broker σ}

/-- Only the entries matter, not their order. -/
theorem perm {w' : SessionRef → List PacketAndToken} (h : Numbered w b)
    (hw : ∀ s, (w' s).Perm (w s)) : Numbered w' b := by
  constructor
  · intro s t id hmem
    obtain ⟨i, ht, hlt, hid⟩ := h.delivered s t id hmem
    exact ⟨i, ht, hlt, fun pt hpt => hid pt (((hw s).append_right _).subset hpt)⟩
  · exact fun s => (((hw s).append_right _).map _).nodup_iff.mpr (h.unique s)

/-- Runs that keep to the ledger keep the ids. -/
theorem ledger (h : Numbered (fun s => w s ++ new s) b)
    (hw : ∀ s, ∀ pt ∈ w s, pt.p < b.packets.next) (hl : Ledger new b b') : Numbered w b' := by
  constructor
  · intro s t id hmem
    rw [hl.publishes] at hmem
    obtain ⟨i, ht, hlt, hid⟩ := h.delivered s t id hmem
    refine ⟨i, ht, lt_of_lt_of_le hlt hl.tokens_next, fun pt hpt hpti => ?_⟩
    rcases List.mem_append.mp hpt with hp | hp
    · rw [hl.ids pt.p (hw s pt hp)]
      exact hid pt (List.mem_append_left _ (List.mem_append_left _ hp)) hpti
    · -- the entry was there before, with the same token and id
      obtain ⟨pt₀, hpt₀, ht₀, hid₀⟩ := hl.token_mem hp
      rw [← hid₀]
      refine hid pt₀ ?_ (ht₀.trans hpti)
      rw [List.append_assoc]
      exact List.mem_append_right _ hpt₀
  · intro s
    have hsub : ((w s ++ b'.entries s).map fun pt => b'.idOf pt.p).Subperm
        (((w s ++ new s) ++ b.entries s).map fun pt => b.idOf pt.p) := by
      have hleft : (w s).map (fun pt => b'.idOf pt.p) = (w s).map fun pt => b.idOf pt.p :=
        List.map_congr_left fun pt hpt => hl.ids pt.p (hw s pt hpt)
      have hright := map_subperm Prod.snd (hl.keys s)
      rw [List.map_map, List.map_map] at hright
      rw [List.append_assoc, List.map_append, List.map_append, hleft]
      exact (List.subperm_append_left _).mpr hright
    exact nodup_of_subperm hsub (h.unique s)

/-- At most one new entry, whose id is not in use and whose token is new. -/
theorem enter {this : SessionRef} {msg : PacketRef} {t : Option TokenRef} (h : Numbered w b)
    (hentries : b'.entries = b.entries)
    (hids : ∀ s, ∀ pt ∈ w s ++ b.entries s, b'.idOf pt.p = b.idOf pt.p)
    (hnext : b.tokens.next ≤ b'.tokens.next)
    (hnew : ∀ s, (new s).Sublist (entryFor this ⟨msg, t⟩ s))
    (htoken : ∀ i, t = some i → i = b.tokens.next)
    (hunused : new this ≠ [] → Unused w b this (b'.idOf msg))
    (hpub : ∀ s t' id, (s, t', id) ∈ b'.publishes → (s, t', id) ∈ b.publishes ∨
      s = this ∧ t' = t ∧ id = b'.idOf msg ∧ t.isSome ∧ b.tokens.next < b'.tokens.next ∧
        ∀ pt ∈ w s ++ b.entries s, pt.t ≠ t) :
    Numbered (fun s => w s ++ new s) b' := by
  have hmem : ∀ s, ∀ pt ∈ (w s ++ new s) ++ b'.entries s,
      pt ∈ w s ++ b.entries s ∨ s = this ∧ pt = ⟨msg, t⟩ := by
    intro s pt hpt
    rw [hentries] at hpt
    rcases List.mem_append.mp hpt with hp | hp
    · rcases List.mem_append.mp hp with hp | hp
      · exact .inl (List.mem_append_left _ hp)
      · exact .inr (mem_entryFor.mp ((hnew s).subset hp))
    · exact .inl (List.mem_append_right _ hp)
  constructor
  · intro s t' id hev
    rcases hpub s t' id hev with hold | ⟨rfl, rfl, rfl, hsome, hlt, hother⟩
    · obtain ⟨i, ht, hlt, hid⟩ := h.delivered s t' id hold
      refine ⟨i, ht, lt_of_lt_of_le hlt hnext, fun pt hpt hpti => ?_⟩
      rcases hmem s pt hpt with hp | ⟨-, rfl⟩
      · rw [hids s pt hp]
        exact hid pt hp hpti
      · exact absurd (htoken i hpti) (Nat.ne_of_lt hlt)
    · obtain ⟨i, hi⟩ := Option.isSome_iff_exists.mp hsome
      refine ⟨i, hi, ?_, fun pt hpt hpti => ?_⟩
      · rw [htoken i hi]
        exact hlt
      · rcases hmem s pt hpt with hp | ⟨-, rfl⟩
        · exact absurd (hpti.trans hi.symm) (hother pt hp)
        · rfl
  · intro s
    have hold : (w s ++ b.entries s).map (fun pt => b'.idOf pt.p) =
        (w s ++ b.entries s).map fun pt => b.idOf pt.p :=
      List.map_congr_left fun pt hpt => hids s pt hpt
    have hperm : ((w s ++ new s) ++ b'.entries s).Perm (new s ++ (w s ++ b.entries s)) := by
      rw [hentries, ← List.append_assoc]
      exact List.perm_append_comm.append_right _
    refine (hperm.map _).nodup_iff.mpr ?_
    rw [List.map_append, hold]
    refine List.nodup_append'.mpr ⟨?_, h.unique s, fun id hid hid' => ?_⟩
    · refine (List.Sublist.map _ (hnew s)).nodup ?_
      unfold entryFor
      split
      · exact List.nodup_singleton _
      · exact List.nodup_nil
    · obtain ⟨pt, hpt, rfl⟩ := List.mem_map.mp hid
      obtain ⟨pt', hpt', heq⟩ := List.mem_map.mp hid'
      obtain ⟨rfl, rfl⟩ := mem_entryFor.mp ((hnew s).subset hpt)
      exact hunused (List.ne_nil_of_mem hpt) pt' hpt' heq

end Numbered
/-! ## What `Publish` does to the ids -/

namespace Session.Published

variable {this : SessionRef} {msg : PacketRef} {t : Option TokenRef} {b b' : Broker σ}

theorem entries_eq (h : Published this msg t b b') : b'.entries = b.entries :=
  funext fun s => (of_footprint_eq (h.footprint_eq s)).1

/-- The packet gets the next id of the session. -/
theorem idOf_self (h : Published this msg t b b') (hmsg : b.ValidMsg msg) :
    b'.idOf msg = (b.sessions this).nextId := by
  obtain ⟨p, hp⟩ := hmsg.publish
  rw [idOf, h.packets, Heap.modify_self, hp]
  rfl

theorem idOf_of_ne (h : Published this msg t b b') {r : PacketRef} (hr : r ≠ msg) :
    b'.idOf r = b.idOf r := by
  rw [idOf, h.packets, Heap.modify_of_ne _ _ hr, idOf]

theorem publishes_eq (h : Published this msg t b b') (hmsg : b.ValidMsg msg) :
    b'.publishes = b.publishes ++ [(this, t, (b.sessions this).nextId)] := by
  rw [publishes, h.trace, List.filterMap_append, ← h.idOf_self hmsg]
  rfl

/-- No packet that is held changes its id, if the one that is numbered does not. -/
theorem idOf_held {w : SessionRef → List PacketAndToken} (h : Published this msg t b b')
    (hmsg : b.ValidMsg msg)
    (hheld : ∀ s, Holds w b s msg → b.idOf msg = (b.sessions this).nextId) {s : SessionRef}
    {r : PacketRef} (hr : Holds w b s r) : b'.idOf r = b.idOf r := by
  by_cases hrm : r = msg
  · subst hrm
    rw [h.idOf_self hmsg, hheld s hr]
  · exact h.idOf_of_ne hrm

end Session.Published

/-! ## Moves -/

namespace Move

variable {n : Numbering} {w w' : SessionRef → List PacketAndToken} {b b' : Broker σ}

/-- What is held exists. -/
theorem holds_lt (hs : Sound w b) {s : SessionRef} {r : PacketRef} (hr : Holds w b s r) :
    r < b.packets.next := by
  rcases hr with ⟨pt, hpt, rfl⟩ | hr
  · rcases List.mem_append.mp hpt with hp | hp
    · exact hs.waiting s pt hp
    · exact hs.inRange.entries s pt hp
  · exact hs.inRange.sends s r hr

/-- The condition on a call of `Publish` is still true when packets have been allocated. -/
theorem mayNumber_of_sessions {this : SessionRef} {msg : PacketRef} {b₁ : Broker σ}
    (hs : Sound w b) (hl : Ledger noEntries b b₁) (hsessions : b₁.sessions = b.sessions)
    (hmay : MayNumber w b (.publish this msg)) : MayNumber w b₁ (.publish this msg) := by
  have hentries : b₁.entries = b.entries := by
    funext s
    rw [entries, hsessions, entries]
  have hholds : ∀ s r, Holds w b₁ s r → Holds w b s r := by
    intro s r hr
    unfold Holds at hr ⊢
    rwa [hentries, hsessions] at hr
  constructor
  · intro s hr
    have hr' := hholds s msg hr
    rw [hl.ids msg (holds_lt hs hr'), hsessions]
    exact hmay.1 s hr'
  · rw [hsessions]
    intro hconn hclosed pt hpt
    rw [hentries] at hpt
    rw [hl.ids pt.p (holds_lt hs (.inl ⟨pt, hpt, rfl⟩))]
    exact hmay.2 hconn hclosed pt hpt

/-- No step changes the id of a packet that is held. -/
theorem idOf_held (h : Move n w b w' b') (hs : Sound w b) (hmay : MayNumber w b n)
    {s : SessionRef} {r : PacketRef} (hr : Holds w b s r) : b'.idOf r = b.idOf r := by
  have hlt := holds_lt hs hr
  cases h with
  | quiet hl _ => exact hl.ids r hlt
  | queue hl _ => exact hl.ids r hlt
  | @publish _ _ _ _ this msg t b₁ b₂ hq hkept hsess ht htrace hold hvalid hpub hend =>
    have hl := hq hs.inRange
    have hmay₁ := mayNumber_of_sessions hs hl hsess hmay
    have hr₁ : Holds w b₁ s r := by
      unfold Holds at hr ⊢
      rw [entries, hsess]
      exact hr
    have hid₂ : b₂.idOf r = b.idOf r :=
      (hpub.idOf_held hvalid hmay₁.1 hr₁).trans (hl.ids r hlt)
    have hlt₂ : r < b₂.packets.next := by
      rw [hpub.packets]
      exact lt_of_lt_of_le hlt hl.packets_next
    rcases hend with ⟨hl', -, -⟩ | ⟨rfl, -, -⟩ | ⟨rfl, -⟩
    · exact (hl'.ids r hlt₂).trans hid₂
    · exact hid₂
    · exact hid₂
  | @send _ _ _ _ this t p b₀ b₁ b₂ hq hs₀ ht₀ hpub₀ hp₀ hs₁ hp₁ htrace₁ halloc hprep hl hw =>
    have hlt₂ : r < b₂.packets.next := by
      rw [hprep.packets_next, hp₁, hp₀]
      exact Nat.lt_succ_of_lt hlt
    rw [hl.ids r hlt₂, hprep.ids r (Nat.ne_of_lt hlt), idOf, hp₁, ← idOf]
    exact (hq hs.inRange).ids r hlt

/-- No step changes the id of a packet that is there, except that `Publish` numbers a
PUBLISH. -/
theorem idOf_other (h : Move n w b w' b') (hb : b.InRange) {r : PacketRef}
    (hlt : r < b.packets.next) (hkind : (b.kindOf r).1 ≠ PacketType.publish) :
    b'.idOf r = b.idOf r := by
  cases h with
  | quiet hl _ => exact hl.ids r hlt
  | queue hl _ => exact hl.ids r hlt
  | @publish _ _ _ _ this msg t b₁ b₂ hq hkept hsess ht htrace hold hvalid hpub hend =>
    have hne : r ≠ msg := by
      intro heq
      rw [← hkept.kinds r hlt, heq, hvalid.2] at hkind
      exact hkind rfl
    have hid₂ : b₂.idOf r = b.idOf r := (hpub.idOf_of_ne hne).trans ((hq hb).ids r hlt)
    have hlt₂ : r < b₂.packets.next := by
      rw [hpub.packets]
      exact lt_of_lt_of_le hlt (hq hb).packets_next
    rcases hend with ⟨hl', -, -⟩ | ⟨rfl, -, -⟩ | ⟨rfl, -⟩
    · exact (hl'.ids r hlt₂).trans hid₂
    · exact hid₂
    · exact hid₂
  | @send _ _ _ _ this t p b₀ b₁ b₂ hq hs₀ ht₀ hpub₀ hp₀ hs₁ hp₁ htrace₁ halloc hprep hl hw =>
    have hlt₂ : r < b₂.packets.next := by
      rw [hprep.packets_next, hp₁, hp₀]
      exact Nat.lt_succ_of_lt hlt
    rw [hl.ids r hlt₂, hprep.ids r (Nat.ne_of_lt hlt), idOf, hp₁, ← idOf]
    exact (hq hb).ids r hlt

/-- Only a call of `Publish` is recorded. -/
theorem recorded (h : Move n w b w' b') (hb : b.InRange) : Recorded b b' n := by
  cases h with
  | quiet hl _ => exact hl.publishes
  | queue hl _ => exact hl.publishes
  | @publish _ _ _ _ this msg t b₁ b₂ hq hkept hsess ht htrace hold hvalid hpub hend =>
    obtain ⟨i, hi⟩ := Option.isSome_iff_exists.mp (hpub.typed (congrArg Prod.snd hvalid.2))
    have hb₂ : b₂.publishes = b.publishes ++ [(this, some i, (b.sessions this).nextId)] := by
      rw [hpub.publishes_eq hvalid, hi, hsess, (hq hb).publishes]
    refine ⟨i, ?_⟩
    rcases hend with ⟨hl', -, -⟩ | ⟨rfl, -, -⟩ | ⟨rfl, -⟩
    · exact hl'.publishes.trans hb₂
    · exact hb₂
    · exact hb₂
  | send hq hs₀ ht₀ hpub₀ hp₀ hs₁ hp₁ htrace₁ halloc hprep hl hw =>
    have htrace : b'.publishes = b.publishes := by
      rw [hl.publishes, hprep.publishes, publishes, htrace₁, ← publishes, hpub₀]
    exact htrace

/-- The state in which `Publish` comes to its checks. -/
theorem published_numbered {this : SessionRef} {msg : PacketRef} {t : Option TokenRef}
    {new : SessionRef → List PacketAndToken} {b₂ : Broker σ} (hs : Sound w b)
    (hn : Numbered w b) (hvalid : b.ValidMsg msg) (hpub : Session.Published this msg t b b₂)
    (hheld : ∀ s, Holds w b s msg → b.idOf msg = (b.sessions this).nextId)
    (hnew : ∀ s, (new s).Sublist (entryFor this ⟨msg, t⟩ s))
    (hunused : new this ≠ [] → Unused w b this (b.sessions this).nextId) :
    Numbered (fun s => w s ++ new s) b₂ := by
  have hsome : t.isSome := hpub.typed (congrArg Prod.snd hvalid.2)
  refine hn.enter hpub.entries_eq (fun s pt hpt => ?_) hpub.tokens.next_le hnew
    (fun i hi => hpub.tokens.eq_next hi) (fun hne => ?_) fun s t' id hev => ?_
  · exact hpub.idOf_held hvalid hheld (.inl ⟨pt, hpt, rfl⟩)
  · rw [hpub.idOf_self hvalid]
    exact hunused hne
  · rw [hpub.publishes_eq hvalid] at hev
    rcases List.mem_append.mp hev with hold | hlast
    · exact .inl hold
    · obtain ⟨rfl, rfl, rfl⟩ : s = this ∧ t' = t ∧ id = (b.sessions this).nextId := by
        simpa using hlast
      refine .inr ⟨rfl, rfl, (hpub.idOf_self hvalid).symm, hsome, hpub.tokens.next_lt hsome,
        fun pt hpt hpti => ?_⟩
      obtain ⟨i, hi⟩ := Option.isSome_iff_exists.mp hsome
      have hlt := (hs.live s pt hpt i (hpti.trans hi)).1
      exact absurd (hpub.tokens.eq_next hi) (Nat.ne_of_lt hlt)

/-- Every move that meets the condition keeps the ids. -/
theorem numbered (h : Move n w b w' b') (hs : Sound w b) (hn : Numbered w b)
    (hmay : MayNumber w b n) : Numbered w' b' := by
  have hquiet : ∀ b₁, Ledger noEntries b b₁ → Numbered w b₁ := by
    intro b₁ hl
    have hn' : Numbered (fun s => w s ++ noEntries s) b := hn.perm fun s => by
      rw [List.append_nil]
    exact hn'.ledger hs.waiting hl
  cases h with
  | quiet hl hperm => exact (hquiet _ hl).perm hperm
  | @queue _ _ _ _ this pt hl hperm =>
    refine (hn.perm hperm).ledger (fun s pt' hpt' => ?_) hl
    exact hs.waiting s pt' ((hperm s).subset (List.mem_append_left _ hpt'))
  | @publish _ _ _ _ this msg t b₁ b₂ hq hkept hsess ht htrace hold hvalid hpub hend =>
    have hl := hq hs.inRange
    have hmay₁ := mayNumber_of_sessions hs hl hsess hmay
    have hn₁ := hquiet b₁ hl
    have hs₁ := hs.quiet hq
    have hw₂ : ∀ s, ∀ pt ∈ w s, pt.p < b₂.packets.next := by
      rw [hpub.packets]
      exact hs₁.waiting
    -- when the session takes the entry, its id is not in use
    have htaken : (b.sessions this).isConnected ∧ ¬ (b.sessions this).isClosed →
        Numbered (fun s => w s ++ entryFor this ⟨msg, t⟩ s) b₂ := by
      intro hopen
      rw [← hsess] at hopen
      exact published_numbered hs₁ hn₁ hvalid hpub hmay₁.1 (fun _ => List.Sublist.refl _)
        fun _ => hmay₁.2 hopen.1 hopen.2
    rcases hend with ⟨hl', hperm, hopen⟩ | ⟨rfl, hperm, hopen⟩ | ⟨rfl, hperm⟩
    · exact ((htaken hopen).ledger hw₂ hl').perm hperm
    · exact (htaken hopen).perm hperm
    · have hnone : Numbered (fun s => w s ++ noEntries s) b' :=
        published_numbered hs₁ hn₁ hvalid hpub hmay₁.1 (fun _ => List.nil_sublist _)
          fun hne => absurd rfl hne
      exact hnone.perm fun s => by rw [List.append_nil]; exact hperm s
  | @send _ _ _ _ this t p b₀ b₁ b₂ hq hs₀ ht₀ hpub₀ hp₀ hs₁ hp₁ htrace₁ halloc hprep hl hperm =>
    have hentries : b₂.entries = b.entries := by
      rw [hprep.entries]
      funext s
      rw [entries, hs₁, hs₀, entries]
    have hids : ∀ s, ∀ pt ∈ w s ++ b.entries s, b₂.idOf pt.p = b.idOf pt.p := by
      intro s pt hpt
      have hlt := holds_lt hs (.inl ⟨pt, hpt, rfl⟩)
      rw [hprep.ids pt.p (Nat.ne_of_lt hlt), idOf, hp₁, ← idOf]
      exact (hq hs.inRange).ids pt.p hlt
    have hnew : ∀ s, (if Session.awaits p then entryFor this ⟨b.packets.next, t⟩ s else []).Sublist
        (entryFor this ⟨b.packets.next, t⟩ s) := by
      intro s
      split
      · exact List.Sublist.refl _
      · exact List.nil_sublist _
    have hentered : Numbered (fun s => w s ++
        if Session.awaits p then entryFor this ⟨b.packets.next, t⟩ s else []) b₂ := by
      refine hn.enter hentries hids ?_ hnew (fun i hi => ?_) (fun hne => ?_)
        fun s t' id hev => .inl ?_
      · rw [hprep.tokens_next, ← ht₀]
        exact halloc.next_le
      · rw [halloc.eq_next hi, ht₀]
      · have hawaits : Session.awaits p = true := by
          by_contra hc
          rw [if_neg hc] at hne
          exact hne rfl
        rw [hprep.id hawaits, hs₁, hs₀]
        exact hmay hawaits
      · rw [hprep.publishes, publishes, htrace₁, ← publishes, hpub₀] at hev
        exact hev
    refine (hentered.ledger (fun s pt hpt => ?_) hl).perm hperm
    rw [hprep.packets_next, hp₁, hp₀]
    exact Nat.lt_succ_of_lt (hs.waiting s pt hpt)

end Move

/-! ## Runs -/

namespace Process

variable (cfg : Config) (S : StoreMgr σ)

/-- The steps that keep the ids of deliveries. -/
def MayStep (P : Process σ) (a : Action) : Prop :=
  MayNumber P.waitingOn P.broker (P.numbering cfg a)

/-- What acknowledgements rely on: the entry of a delivery has the id that was allocated
for it, and removing that id removes this entry and nothing else. -/
structure Deliveries (P : Process σ) : Prop where
  id_kept : ∀ s t id, (s, t, id) ∈ P.broker.publishes → ∃ i, t = some i ∧
    ∀ pt ∈ P.waitingOn s ++ P.broker.entries s, pt.t = some i → P.broker.idOf pt.p = id
  acknowledged : ∀ s i id, (s, some i, id) ∈ P.broker.publishes →
    ∀ imsg ∈ (P.broker.sessions s).inflightingList, imsg.pt.t = some i →
      ∃ b', Session.removeInflightMsg s id P.broker = (.ok (some imsg), b') ∧
        (imsg :: (b'.sessions s).inflightingList).Perm (P.broker.sessions s).inflightingList ∧
        ∀ s', s' ≠ s → b'.sessions s' = P.broker.sessions s'

variable {cfg S} {P : Process σ}

theorem Initial.numbered (h : Initial cfg P) : Numbered P.waitingOn P.broker := by
  constructor
  · intro s t id hev
    rw [publishes, h.trace] at hev
    exact absurd hev List.not_mem_nil
  · intro s
    rw [h.waitingOn, (h.session s).1]
    exact List.nodup_nil

theorem reach_numbered (h : (system cfg S).Reach (MayStep cfg) P) :
    P.Consistent ∧ Numbered P.waitingOn P.broker := by
  refine h.invariant (I := fun P => P.Consistent ∧ Numbered P.waitingOn P.broker)
    (fun P h0 => ?_) fun P a P' hP hmay hs => ?_
  · have hinit : Initial cfg P := h0
    exact ⟨hinit.consistent, hinit.numbered⟩
  · have hstep : step cfg S a P = some P' := hs
    have hmoves := step_moves hP.1 hstep
    exact ⟨hmoves.consistent hP.1, hmoves.move.numbered hP.1.sound hP.2 hmay⟩

/-- With distinct ids, the first entry with the id is the only one. -/
theorem find?_hasId {b : Broker σ} {l : List InflightingMsg} {imsg : InflightingMsg}
    (hnodup : (l.map fun imsg => b.idOf imsg.pt.p).Nodup) (hmem : imsg ∈ l) :
    l.find? (Session.hasId b (b.idOf imsg.pt.p)) = some imsg := by
  induction l with
  | nil => exact absurd hmem List.not_mem_nil
  | cons imsg' l ih =>
    rw [List.map_cons, List.nodup_cons] at hnodup
    rcases List.mem_cons.mp hmem with rfl | hmem
    · exact List.find?_cons_of_pos (by simp [Session.hasId])
    · have hne : b.idOf imsg'.pt.p ≠ b.idOf imsg.pt.p := fun heq =>
        hnodup.1 (heq ▸ List.mem_map_of_mem (f := fun imsg => b.idOf imsg.pt.p) hmem)
      rw [List.find?_cons_of_neg (by simp [Session.hasId, hne])]
      exact ih hnodup.2 hmem

theorem deliveries_of_numbered (h : Numbered P.waitingOn P.broker) : P.Deliveries := by
  constructor
  · intro s t id hev
    obtain ⟨i, ht, -, hid⟩ := h.delivered s t id hev
    exact ⟨i, ht, hid⟩
  · intro s i id hev imsg himsg ht
    obtain ⟨i', hi, -, hid⟩ := h.delivered s (some i) id hev
    have hentry : imsg.pt ∈ P.waitingOn s ++ P.broker.entries s :=
      List.mem_append_right _ (List.mem_append_left _ (List.mem_map_of_mem himsg))
    obtain rfl : P.broker.idOf imsg.pt.p = id := hid imsg.pt hentry (ht.trans hi)
    have hnodup : ((P.broker.sessions s).inflightingList.map
        fun imsg => P.broker.idOf imsg.pt.p).Nodup := by
      have hsub : ((P.broker.sessions s).inflightingList.map InflightingMsg.pt).Sublist
          (P.waitingOn s ++ P.broker.entries s) :=
        (List.sublist_append_left _ _).trans (List.sublist_append_right _ _)
      have := (hsub.map fun pt => P.broker.idOf pt.p).nodup (h.unique s)
      rwa [List.map_map] at this
    have hfind := find?_hasId hnodup himsg
    have hrun := Session.removeInflightMsg_run s (P.broker.idOf imsg.pt.p) P.broker
    rw [hfind] at hrun
    refine ⟨_, hrun, ?_, fun s' hs' => ?_⟩
    · rw [Session.withoutInflight, setSession_self]
      exact GoList.perm_of_find? hfind
    · exact setSession_of_ne _ _ hs'

/-- In a run whose calls of `Publish` number no packet that another session holds, and hand
out no id that is in use, every delivery keeps its id: it is recorded with the id that its
own session allocated, its entry has that id in every state, the acknowledgement with that
id removes its entry and no other, and no step changes the id of a packet that is held. -/
theorem deliveries_kept (h : (system cfg S).Reach (MayStep cfg) P) :
    P.Deliveries ∧ ∀ a P', MayStep cfg P a → step cfg S a P = some P' →
      (∀ s r, Holds P.waitingOn P.broker s r → P'.broker.idOf r = P.broker.idOf r) ∧
      Recorded P.broker P'.broker (P.numbering cfg a) := by
  obtain ⟨hP, hn⟩ := reach_numbered h
  refine ⟨deliveries_of_numbered hn, fun a P' hmay hs => ⟨fun s r hr => ?_, ?_⟩⟩
  · exact (step_moves hP hs).move.idOf_held hP.sound hmay hr
  · exact (step_moves hP hs).move.recorded hP.sound.inRange

/-! ## A packet for every subscriber -/

/-- The check that a step hands out no id in use and numbers no packet but a new one. -/
def ownPacket (cfg : Config) (P : Process σ) (a : Action) : Bool :=
  let unused s id := (P.waitingOn s ++ P.broker.entries s).all fun pt => P.broker.idOf pt.p ≠ id
  match P.numbering cfg a with
  | .nothing => true
  | .publish this msg =>
    msg = P.broker.packets.next && unused this (P.broker.sessions this).nextId
  | .send this p => unused this ((P.broker.sessions this).sentId p)

/-- Loops that make a packet for every subscriber, as `sessionMgr.Publish` does, meet the
first part of the condition. -/
theorem mayStep_of_ownPacket (hP : P.Consistent) {a : Action} (h : ownPacket cfg P a = true) :
    MayStep cfg P a := by
  unfold ownPacket at h
  unfold MayStep
  cases hn : P.numbering cfg a with
  | nothing => trivial
  | publish this msg =>
    rw [hn] at h
    simp only [Bool.and_eq_true, decide_eq_true_eq, List.all_eq_true] at h
    refine ⟨fun s hr => ?_, fun _ _ pt hpt => h.2 pt hpt⟩
    exact absurd (Move.holds_lt hP.sound hr) (by rw [h.1]; exact lt_irrefl _)
  | send this p =>
    rw [hn] at h
    simp only [List.all_eq_true, decide_eq_true_eq] at h
    exact fun _ pt hpt => h pt hpt

/-- Two sessions subscribe to `x`, and the manager publishes to it. -/
def mgrPublishRun : List Action :=
  [.recvPacket 0 (inboundConnect (str "a")) RangeOrder.ascending, .advance 0,
    .recvPacket 1 (inboundConnect (str "b")) RangeOrder.ascending, .advance 0,
    .recvPacket 0 (inboundSubscribe 120 1) RangeOrder.ascending, .advance 0,
    .recvPacket 1 (inboundSubscribe 120 1) RangeOrder.ascending, .advance 0,
    .mgrPublish (str "x") (str "m") 1 RangeOrder.ascending, .advance 0, .advance 0]

/-- The session that subscribed first gets two messages: the counters differ. -/
def sharedPacketRun : List Action :=
  [.recvPacket 0 (inboundConnect (str "a")) RangeOrder.ascending, .advance 0,
    .recvPacket 1 (inboundConnect (str "b")) RangeOrder.ascending, .advance 0,
    .recvPacket 1 (inboundSubscribe 120 1) RangeOrder.ascending, .advance 0,
    .mgrPublish (str "x") (str "m") 1 RangeOrder.ascending, .advance 0,
    .recvPacket 0 (inboundSubscribe 120 1) RangeOrder.ascending, .advance 1,
    .recvPacket 0 (inboundPublish (str "x") (str "n") 1 7) RangeOrder.ascending,
    .advance 1, .advance 1]

/-- Both entries of the publication keep their ids. -/
theorem deliveries_kept_mgrPublish : ∃ P : Process MemStore,
    (system {} (MemStore.storeMgr default)).exec mgrPublishRun
      (start {} MemStore.newStoreMgr fun _ => true) = some P ∧
    P.broker.publishes = [(0, some 0, 1), (1, some 1, 1)] ∧ P.Deliveries := by
  have hend : ((system {} (MemStore.storeMgr default)).exec mgrPublishRun
      (start {} MemStore.newStoreMgr fun _ => true)).any (fun P =>
        decide (P.broker.publishes = [(0, some 0, 1), (1, some 1, 1)])) = true := by
    decide +kernel
  have hcheck : (system {} (MemStore.storeMgr default)).checkAll (ownPacket {}) mgrPublishRun
      (start {} MemStore.newStoreMgr fun _ => true) = true := by
    decide +kernel
  obtain ⟨P, hP, hpub⟩ := StepSystem.exists_of_any hend
  have hinit := start_initial {} MemStore.newStoreMgr fun _ => true
  have hok := StepSystem.along_of_checkAll (I := Consistent)
    (fun P a P' hP _ hs => (step_moves hP hs).consistent hP)
    (fun P a hP hc => mayStep_of_ownPacket hP hc) mgrPublishRun _ hinit.consistent hcheck
  exact ⟨P, hP, of_decide_eq_true hpub,
    (deliveries_kept (StepSystem.reach_of_exec (.init hinit) hok hP)).1⟩

/-- The second call of `Publish` gives the packet another id while it is in flight to the
first subscriber. -/
theorem deliveries_not_kept_sharedPacket : ∃ P : Process MemStore,
    (system {} (MemStore.storeMgr default)).Reachable P ∧ ¬ P.Deliveries := by
  have hend : ((system {} (MemStore.storeMgr default)).exec sharedPacketRun
      (start {} MemStore.newStoreMgr fun _ => true)).any (fun P =>
        decide ((0, some 1, 1) ∈ P.broker.publishes ∧
          ∃ pt ∈ P.broker.entries 0, pt.t = some 1 ∧ P.broker.idOf pt.p ≠ 1)) = true := by
    decide +kernel
  obtain ⟨P, hP, hchanged⟩ := StepSystem.exists_of_any hend
  have hinit := start_initial {} MemStore.newStoreMgr fun _ => true
  obtain ⟨hpub, pt, hpt, ht, hne⟩ := of_decide_eq_true hchanged
  refine ⟨P, StepSystem.reachable_of_exec hinit hP, fun hd => hne ?_⟩
  obtain ⟨i, hi, hid⟩ := hd.id_kept 0 (some 1) 1 hpub
  exact hid pt (List.mem_append_right _ hpt) (ht.trans hi)

end Process
end MqttBroker
