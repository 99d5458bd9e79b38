import Mathlib.Data.List.Perm.Subperm
import MqttBroker.Session.System

/-!
# The ledger of entries

An entry (`PacketAndToken`) is made by `Publish` or `Send` and then moves: into the pending
list, into the in-flight list, out of it when it is acknowledged. What the handlers may do
to the entries of all sessions is one relation here, `Ledger`: they move and drop entries
but make none, they never change the id of a packet that exists, and a token they complete
leaves the lists. Every handler is shown to stay inside it once; the invariants about ids
and tokens then follow from the relation alone.

`Ledger new` lets the entries `new`, which the caller holds in its hands, be entered.
-/

namespace MqttBroker

variable {σ : Type}

/-- The entries that wait for an acknowledgement or for a place in the window. -/
def Session.entries (s : Session) : List PacketAndToken :=
  s.inflightingList.map InflightingMsg.pt ++ s.peddingMsgList

namespace Broker

/-- The entries in the lists of a session. -/
def entries (b : Broker σ) (s : SessionRef) : List PacketAndToken := (b.sessions s).entries

/-- The id on the packet behind a reference. -/
def idOf (b : Broker σ) (r : PacketRef) : UInt16 := (b.packets.cells r).messageID

/-- The Go type of the packet behind a reference, and the message type in its header. -/
def kindOf (b : Broker σ) (r : PacketRef) : UInt8 × UInt8 :=
  ((b.packets.cells r).kind, (b.packets.cells r).type)

/-- What identifies an entry from outside: its token and the id on its packet. -/
def key (b : Broker σ) (pt : PacketAndToken) : Option TokenRef × UInt16 := (pt.t, b.idOf pt.p)

/-- The session, the token and the id of every call of `Publish` so far. -/
def publishes (b : Broker σ) : List (SessionRef × Option TokenRef × UInt16) :=
  b.trace.filterMap fun
    | .publish s t msg => some (s, t, msg.messageID)
    | _ => none

/-- The token of a CONNECT or DISCONNECT that some session sent. -/
def Handshake (b : Broker σ) (t : TokenRef) : Prop :=
  ∃ s, (b.sessions s).connectToken = some t ∨ (b.sessions s).disconnectToken = some t

/-- The lists of the sessions hold packets that exist. -/
structure InRange (b : Broker σ) : Prop where
  entries : ∀ s, ∀ pt ∈ b.entries s, pt.p < b.packets.next
  sends : ∀ s, ∀ r ∈ (b.sessions s).channel.iSendList, r < b.packets.next

/-- No token is on two entries. -/
structure TokensDistinct (entries : SessionRef → List PacketAndToken) : Prop where
  nodup : ∀ s, ((entries s).filterMap PacketAndToken.t).Nodup
  disjoint : ∀ s s', s ≠ s' → ∀ pt ∈ entries s, ∀ pt' ∈ entries s', ∀ t,
    pt.t = some t → pt'.t ≠ some t

/-- The part of a session that the ledger is about. -/
def footprint (s : Session) :
    List InflightingMsg × List PacketAndToken × List PacketRef × Option TokenRef ×
      Option TokenRef :=
  (s.inflightingList, s.peddingMsgList, s.channel.iSendList, s.connectToken, s.disconnectToken)

theorem of_footprint_eq {s s' : Session} (h : footprint s' = footprint s) :
    s'.entries = s.entries ∧ s'.channel.iSendList = s.channel.iSendList ∧
      s'.connectToken = s.connectToken ∧ s'.disconnectToken = s.disconnectToken := by
  simp only [footprint, Prod.mk.injEq] at h
  obtain ⟨h₁, h₂, h₃, h₄, h₅⟩ := h
  exact ⟨by rw [Session.entries, Session.entries, h₁, h₂], h₃, h₄, h₅⟩

end Broker

open Broker

/-- Between `b` and `b'`, entries were moved or dropped, or entered from `new`. -/
structure Ledger (new : SessionRef → List PacketAndToken) (b b' : Broker σ) : Prop where
  inRange : b'.InRange
  packets_next : b.packets.next ≤ b'.packets.next
  ids : ∀ r < b.packets.next, b'.idOf r = b.idOf r
  kinds : ∀ r < b.packets.next, b'.kindOf r = b.kindOf r
  tokens_next : b.tokens.next ≤ b'.tokens.next
  keys : ∀ s, ((b'.entries s).map b'.key).Subperm ((new s ++ b.entries s).map b.key)
  handshake : ∀ s, (b'.sessions s).connectToken = (b.sessions s).connectToken ∧
    (b'.sessions s).disconnectToken = (b.sessions s).disconnectToken
  completed : ∀ t, (b'.tokens.cells t).complete = true →
    (b.tokens.cells t).complete = true ∨ b.Handshake t ∨
      (∃ s, ∃ pt ∈ new s ++ b.entries s, pt.t = some t) ∧
        (TokensDistinct (fun s => new s ++ b.entries s) →
          ∀ s, ∀ pt ∈ b'.entries s, pt.t ≠ some t)
  publishes : b'.publishes = b.publishes

/-- No entry from outside. -/
abbrev noEntries : SessionRef → List PacketAndToken := fun _ => []

/-- One entry, for one session. -/
def entryFor (s : SessionRef) (pt : PacketAndToken) : SessionRef → List PacketAndToken :=
  fun s' => if s' = s then [pt] else []

theorem mem_entryFor {this s : SessionRef} {pt pt' : PacketAndToken} :
    pt' ∈ entryFor this pt s ↔ s = this ∧ pt' = pt := by
  unfold entryFor
  by_cases hs : s = this
  · rw [if_pos hs, List.mem_singleton]
    exact (and_iff_right hs).symm
  · rw [if_neg hs]
    exact iff_of_false List.not_mem_nil fun h => hs h.1

theorem mem_entryFor_lt {this : SessionRef} {pt : PacketAndToken} {n : ℕ} (hpt : pt.p < n) :
    ∀ s, ∀ pt' ∈ entryFor this pt s, pt'.p < n := by
  intro s pt' h
  rw [(mem_entryFor.mp h).2]
  exact hpt

/-- A run that makes no entries, from any state whose lists hold packets that exist. -/
def Quiet (b b' : Broker σ) : Prop := b.InRange → Ledger noEntries b b'

/-! ## Composition -/

/-- Entries that exist keep their key. -/
theorem Ledger.key_eq {new : SessionRef → List PacketAndToken} {b b' : Broker σ}
    (h : Ledger new b b') {pt : PacketAndToken} (hpt : pt.p < b.packets.next) :
    b'.key pt = b.key pt := by
  rw [key, key, h.ids pt.p hpt]

/-- The token of an entry is one of the tokens before. -/
theorem Ledger.token_mem {new : SessionRef → List PacketAndToken} {b b' : Broker σ}
    (h : Ledger new b b') {s : SessionRef} {pt : PacketAndToken} (hpt : pt ∈ b'.entries s) :
    ∃ pt₀ ∈ new s ++ b.entries s, pt₀.t = pt.t ∧ b.idOf pt₀.p = b'.idOf pt.p := by
  have hkey := (h.keys s).subset (List.mem_map_of_mem hpt)
  obtain ⟨pt₀, hpt₀, heq⟩ := List.mem_map.mp hkey
  exact ⟨pt₀, hpt₀, congrArg Prod.fst heq, congrArg Prod.snd heq⟩

theorem map_fst_key (b : Broker σ) (l : List PacketAndToken) :
    (l.map b.key).filterMap Prod.fst = l.filterMap PacketAndToken.t := by
  rw [List.filterMap_map]
  rfl

theorem filterMap_subperm {α β : Type} (f : α → Option β) {l l' : List α} (h : l.Subperm l') :
    (l.filterMap f).Subperm (l'.filterMap f) := by
  obtain ⟨l₀, hperm, hsub⟩ := h
  exact ⟨l₀.filterMap f, hperm.filterMap f, hsub.filterMap f⟩

theorem map_subperm {α β : Type} (f : α → β) {l l' : List α} (h : l.Subperm l') :
    (l.map f).Subperm (l'.map f) := by
  obtain ⟨l₀, hperm, hsub⟩ := h
  exact ⟨l₀.map f, hperm.map f, hsub.map f⟩

/-- Fewer tokens are distinct again. -/
theorem Broker.TokensDistinct.of_subperm {e e' : SessionRef → List PacketAndToken}
    (h : TokensDistinct e) (hsub : ∀ s, ((e' s).filterMap PacketAndToken.t).Subperm
      ((e s).filterMap PacketAndToken.t)) : TokensDistinct e' := by
  constructor
  · intro s
    obtain ⟨l, hperm, hl⟩ := hsub s
    exact hperm.nodup_iff.mp ((h.nodup s).sublist hl)
  · have hmem : ∀ s, ∀ pt ∈ e' s, ∀ t, pt.t = some t → ∃ pt₀ ∈ e s, pt₀.t = some t := by
      intro s pt hpt t ht
      exact List.mem_filterMap.mp ((hsub s).subset (List.mem_filterMap.mpr ⟨pt, hpt, ht⟩))
    intro s s' hss pt hpt pt' hpt' t ht ht'
    obtain ⟨pt₀, hpt₀, ht₀⟩ := hmem s pt hpt t ht
    obtain ⟨pt₀', hpt₀', ht₀'⟩ := hmem s' pt' hpt' t ht'
    exact h.disjoint s s' hss pt₀ hpt₀ pt₀' hpt₀' t ht₀ ht₀'

/-- Distinct tokens stay distinct. -/
theorem Ledger.tokensDistinct {new w : SessionRef → List PacketAndToken} {b b' : Broker σ}
    (h : Ledger new b b') (hd : TokensDistinct fun s => w s ++ (new s ++ b.entries s)) :
    TokensDistinct fun s => w s ++ b'.entries s := by
  refine hd.of_subperm fun s => ?_
  rw [List.filterMap_append, List.filterMap_append]
  refine (List.subperm_append_left _).mpr ?_
  rw [← map_fst_key b', ← map_fst_key b]
  exact filterMap_subperm _ (h.keys s)

theorem Ledger.handshake_iff {new : SessionRef → List PacketAndToken} {b b' : Broker σ}
    (h : Ledger new b b') (t : TokenRef) : b'.Handshake t ↔ b.Handshake t := by
  unfold Handshake
  refine exists_congr fun s => ?_
  rw [(h.handshake s).1, (h.handshake s).2]

theorem Ledger.refl {b : Broker σ} (hb : b.InRange) : Ledger noEntries b b where
  inRange := hb
  packets_next := le_refl _
  ids _ _ := rfl
  kinds _ _ := rfl
  tokens_next := le_refl _
  keys _ := List.Subperm.refl _
  handshake _ := ⟨rfl, rfl⟩
  completed _ ht := .inl ht
  publishes := rfl

/-- A quiet run may follow. -/
theorem Ledger.trans {new : SessionRef → List PacketAndToken} {b b' b'' : Broker σ}
    (h : Ledger new b b') (h' : Ledger noEntries b' b'') : Ledger new b b'' where
  inRange := h'.inRange
  packets_next := le_trans h.packets_next h'.packets_next
  ids r hr := (h'.ids r (lt_of_lt_of_le hr h.packets_next)).trans (h.ids r hr)
  kinds r hr := (h'.kinds r (lt_of_lt_of_le hr h.packets_next)).trans (h.kinds r hr)
  tokens_next := le_trans h.tokens_next h'.tokens_next
  keys s := (h'.keys s).trans (h.keys s)
  handshake s :=
    ⟨(h'.handshake s).1.trans (h.handshake s).1, (h'.handshake s).2.trans (h.handshake s).2⟩
  completed t ht := by
    rcases h'.completed t ht with h₁ | h₁ | ⟨⟨s, pt, hpt, hptt⟩, hgone⟩
    · -- completed before `b'`: what left the lists by then does not come back
      rcases h.completed t h₁ with h₂ | h₂ | ⟨hheld, hgone⟩
      · exact .inl h₂
      · exact .inr (.inl h₂)
      · refine .inr (.inr ⟨hheld, fun hd s pt hpt hptt => ?_⟩)
        obtain ⟨pt₀, hpt₀, ht₀, -⟩ := h'.token_mem hpt
        exact hgone hd s pt₀ hpt₀ (ht₀.trans hptt)
    · exact .inr (.inl ((h.handshake_iff t).mp h₁))
    · obtain ⟨pt₀, hpt₀, ht₀, -⟩ := h.token_mem hpt
      refine .inr (.inr ⟨⟨s, pt₀, hpt₀, ht₀.trans hptt⟩, fun hd => hgone ?_⟩)
      have hd' : TokensDistinct fun s => noEntries s ++ b'.entries s := h.tokensDistinct hd
      exact hd'
  publishes := h'.publishes.trans h.publishes

instance : Std.Refl (Quiet (σ := σ)) := ⟨fun _ hb => .refl hb⟩

instance : IsTrans (Broker σ) Quiet :=
  ⟨fun _ _ _ h h' hb => (h hb).trans (h' (h hb).inRange)⟩

/-! ## The primitive steps -/

/-- A step that only changes the lists of sessions. -/
theorem Ledger.of_keys {new : SessionRef → List PacketAndToken} {b b' : Broker σ}
    (hp : b'.packets = b.packets) (ht : b'.tokens = b.tokens) (htrace : b'.publishes = b.publishes)
    (hrange : ∀ s, ∀ pt ∈ b'.entries s, pt.p < b.packets.next)
    (hkeys : ∀ s, ((b'.entries s).map b.key).Subperm ((new s ++ b.entries s).map b.key))
    (hsends : ∀ s, ∀ r ∈ (b'.sessions s).channel.iSendList, r < b.packets.next)
    (hhandshake : ∀ s, (b'.sessions s).connectToken = (b.sessions s).connectToken ∧
      (b'.sessions s).disconnectToken = (b.sessions s).disconnectToken) :
    Ledger new b b' where
  inRange := by
    constructor
    · rw [hp]
      exact hrange
    · rw [hp]
      exact hsends
  packets_next := by rw [hp]
  ids r _ := by rw [idOf, idOf, hp]
  kinds r _ := by rw [kindOf, kindOf, hp]
  tokens_next := by rw [ht]
  keys s := by
    have hkey : b'.key = b.key := by
      funext pt
      rw [key, key, idOf, idOf, hp]
    rw [hkey]
    exact hkeys s
  handshake := hhandshake
  completed t h := .inl (by rwa [ht] at h)
  publishes := htrace

/-- An entry in hand may be dropped. -/
theorem Ledger.refl_with {this : SessionRef} {pt : PacketAndToken} {b : Broker σ}
    (hb : b.InRange) : Ledger (entryFor this pt) b b :=
  .of_keys rfl rfl rfl hb.entries
    (fun _ => map_subperm _ (List.sublist_append_right _ _).subperm) hb.sends fun _ => ⟨rfl, rfl⟩

/-- A step that only changes one session. -/
theorem Ledger.setSession_keys {new : SessionRef → List PacketAndToken} {b : Broker σ}
    {this : SessionRef} {f : Session → Session} (hb : b.InRange)
    (hrange : ∀ pt ∈ (f (b.sessions this)).entries, pt.p < b.packets.next)
    (hkeys : ((f (b.sessions this)).entries.map b.key).Subperm
      ((new this ++ b.entries this).map b.key))
    (hsends : ∀ r ∈ (f (b.sessions this)).channel.iSendList, r < b.packets.next)
    (hhandshake : (f (b.sessions this)).connectToken = (b.sessions this).connectToken ∧
      (f (b.sessions this)).disconnectToken = (b.sessions this).disconnectToken) :
    Ledger new b (b.setSession this f) := by
  refine .of_keys rfl rfl rfl (fun s => ?_) (fun s => ?_) (fun s => ?_) fun s => ?_
  all_goals by_cases hs : s = this
  · rw [hs, entries, setSession_self]
    exact hrange
  · rw [entries, setSession_of_ne _ _ hs]
    exact hb.entries s
  · rw [hs, entries, setSession_self]
    exact hkeys
  · rw [entries, setSession_of_ne _ _ hs]
    exact map_subperm _ (List.sublist_append_right _ _).subperm
  · rw [hs, setSession_self]
    exact hsends
  · rw [setSession_of_ne _ _ hs]
    exact hb.sends s
  · rw [hs, setSession_self]
    exact hhandshake
  · rw [setSession_of_ne _ _ hs]
    exact ⟨rfl, rfl⟩

/-- A step that only moves the entries of one session. -/
theorem Ledger.setSession {new : SessionRef → List PacketAndToken} {b : Broker σ}
    {this : SessionRef} {f : Session → Session} (hb : b.InRange)
    (hnew : ∀ s, ∀ pt ∈ new s, pt.p < b.packets.next)
    (hentries : (f (b.sessions this)).entries.Subperm (new this ++ b.entries this))
    (hsends : ∀ r ∈ (f (b.sessions this)).channel.iSendList, r < b.packets.next)
    (hhandshake : (f (b.sessions this)).connectToken = (b.sessions this).connectToken ∧
      (f (b.sessions this)).disconnectToken = (b.sessions this).disconnectToken) :
    Ledger new b (b.setSession this f) := by
  refine .setSession_keys hb (fun pt hpt => ?_) (map_subperm _ hentries) hsends hhandshake
  rcases List.mem_append.mp (hentries.subset hpt) with h | h
  · exact hnew this pt h
  · exact hb.entries this pt h

/-- An entry that is taken out of a session's lists and entered again. -/
theorem Ledger.of_take {this : SessionRef} {pt : PacketAndToken} {b b₁ b₂ : Broker σ}
    (h : Ledger (entryFor this pt) b₁ b₂) (hp : b₁.packets = b.packets)
    (ht : b₁.tokens = b.tokens) (htrace : b₁.publishes = b.publishes)
    (hhandshake : ∀ s, (b₁.sessions s).connectToken = (b.sessions s).connectToken ∧
      (b₁.sessions s).disconnectToken = (b.sessions s).disconnectToken)
    (htake : ∀ s, (entryFor this pt s ++ b₁.entries s).Perm (b.entries s)) :
    Ledger noEntries b b₂ where
  inRange := h.inRange
  packets_next := hp ▸ h.packets_next
  ids r hr := by
    rw [h.ids r (by rw [hp]; exact hr), idOf, idOf, hp]
  kinds r hr := by
    rw [h.kinds r (by rw [hp]; exact hr), kindOf, kindOf, hp]
  tokens_next := ht ▸ h.tokens_next
  keys s := by
    have hkey : b₁.key = b.key := by
      funext pt
      rw [key, key, idOf, idOf, hp]
    refine (h.keys s).trans ?_
    rw [hkey]
    exact ((htake s).map _).subperm
  handshake s :=
    ⟨(h.handshake s).1.trans (hhandshake s).1, (h.handshake s).2.trans (hhandshake s).2⟩
  completed t hc := by
    rcases h.completed t hc with h₁ | ⟨s, h₁⟩ | ⟨⟨s, pt', hpt', hptt⟩, hgone⟩
    · exact .inl (by rwa [ht] at h₁)
    · rw [(hhandshake s).1, (hhandshake s).2] at h₁
      exact .inr (.inl ⟨s, h₁⟩)
    · refine .inr (.inr ⟨⟨s, pt', (htake s).subset hpt', hptt⟩, fun hd => hgone ?_⟩)
      exact hd.of_subperm fun s => ((htake s).filterMap _).subperm
  publishes := h.publishes.trans htrace

/-- With distinct tokens, no list has the token of an entry that is in hand. -/
theorem Broker.TokensDistinct.not_mem {this : SessionRef} {pt : PacketAndToken} {t : TokenRef}
    {e : SessionRef → List PacketAndToken}
    (h : TokensDistinct fun s => entryFor this pt s ++ e s) (ht : pt.t = some t) :
    ∀ s, ∀ pt' ∈ e s, pt'.t ≠ some t := by
  intro s pt' hpt' ht'
  have hpt : pt ∈ entryFor this pt this ++ e this := by
    rw [entryFor, if_pos rfl]
    exact List.mem_cons_self
  by_cases hs : s = this
  · have hnodup := h.nodup this
    rw [entryFor, if_pos rfl, List.singleton_append, List.filterMap_cons_some ht,
      List.nodup_cons] at hnodup
    exact hnodup.1 (List.mem_filterMap.mpr ⟨pt', hs ▸ hpt', ht'⟩)
  · exact h.disjoint s this hs pt' (List.mem_append_right _ hpt') pt hpt t ht' ht

/-- A token tells an entry and its session. -/
theorem Broker.TokensDistinct.eq_of_token {e : SessionRef → List PacketAndToken}
    (h : TokensDistinct e) {s s' : SessionRef} {pt pt' : PacketAndToken} {t : TokenRef}
    (hpt : pt ∈ e s) (hpt' : pt' ∈ e s') (ht : pt.t = some t) (ht' : pt'.t = some t) :
    s' = s ∧ pt' = pt := by
  have hs : s' = s := by
    by_contra hne
    exact h.disjoint s' s hne pt' hpt' pt hpt t ht' ht
  refine ⟨hs, ?_⟩
  by_contra hne
  have hpairs : (e s).Pairwise fun pt₁ pt₂ => ∀ t₁ ∈ pt₁.t, ∀ t₂ ∈ pt₂.t, t₁ ≠ t₂ := by
    have hnodup := h.nodup s
    rw [List.Nodup, List.pairwise_filterMap] at hnodup
    exact hnodup
  have hsymm : Std.Symm fun pt₁ pt₂ : PacketAndToken => ∀ t₁ ∈ pt₁.t, ∀ t₂ ∈ pt₂.t, t₁ ≠ t₂ :=
    ⟨fun _ _ hdiff t₁ h₁ t₂ h₂ => (hdiff t₂ h₂ t₁ h₁).symm⟩
  exact hpairs.forall (hs ▸ hpt') hpt hne t ht' t ht rfl

/-- An entry whose token no list has joins entries with distinct tokens. -/
theorem Broker.TokensDistinct.cons {this : SessionRef} {pt : PacketAndToken}
    {e : SessionRef → List PacketAndToken} (h : TokensDistinct e)
    (hfresh : ∀ t, pt.t = some t → ∀ s, ∀ pt' ∈ e s, pt'.t ≠ some t) :
    TokensDistinct fun s => entryFor this pt s ++ e s := by
  constructor
  · intro s
    rw [List.filterMap_append]
    refine List.nodup_append'.mpr ⟨?_, h.nodup s, ?_⟩
    · unfold entryFor
      split
      · cases ht : pt.t with
        | none => simp [ht]
        | some t => simp [ht]
      · exact List.nodup_nil
    · intro t ht ht'
      obtain ⟨pt₁, hpt₁, ht₁⟩ := List.mem_filterMap.mp ht
      obtain ⟨pt₂, hpt₂, ht₂⟩ := List.mem_filterMap.mp ht'
      rw [(mem_entryFor.mp hpt₁).2] at ht₁
      exact hfresh t ht₁ s pt₂ hpt₂ ht₂
  · intro s s' hss pt₁ hpt₁ pt₂ hpt₂ t ht₁ ht₂
    rcases List.mem_append.mp hpt₁ with h₁ | h₁
    · rw [(mem_entryFor.mp h₁).2] at ht₁
      rcases List.mem_append.mp hpt₂ with h₂ | h₂
      · exact hss ((mem_entryFor.mp h₁).1.trans (mem_entryFor.mp h₂).1.symm)
      · exact hfresh t ht₁ s' pt₂ h₂ ht₂
    · rcases List.mem_append.mp hpt₂ with h₂ | h₂
      · rw [(mem_entryFor.mp h₂).2] at ht₂
        exact hfresh t ht₂ s pt₁ h₁ ht₁
      · exact h.disjoint s s' hss pt₁ h₁ pt₂ h₂ t ht₁ ht₂

/-- Completing the token of an entry that has left the lists. -/
theorem Ledger.complete {b b' : Broker σ} {t : TokenRef} (h : Ledger noEntries b b')
    (hheld : ∃ s, ∃ pt ∈ b.entries s, pt.t = some t)
    (hgone : TokensDistinct b.entries → ∀ s, ∀ pt ∈ b'.entries s, pt.t ≠ some t)
    (f : Token → Token) : Ledger noEntries b { b' with tokens := b'.tokens.modify t f } where
  inRange := ⟨h.inRange.entries, h.inRange.sends⟩
  packets_next := h.packets_next
  ids := h.ids
  kinds := h.kinds
  tokens_next := h.tokens_next
  keys := h.keys
  handshake := h.handshake
  completed t' hc := by
    by_cases ht : t' = t
    · rw [ht]
      exact .inr (.inr ⟨hheld, hgone⟩)
    · refine h.completed t' ?_
      rw [← Heap.modify_of_ne f b'.tokens ht]
      exact hc
  publishes := h.publishes

/-- A step that changes nothing the ledger is about. -/
theorem Quiet.of_footprint {b b' : Broker σ} (hp : b'.packets = b.packets)
    (ht : b'.tokens = b.tokens) (htrace : b'.publishes = b.publishes)
    (hfoot : ∀ s, footprint (b'.sessions s) = footprint (b.sessions s)) : Quiet b b' := by
  intro hb
  have hfields := fun s => of_footprint_eq (hfoot s)
  refine .of_keys hp ht htrace (fun s => ?_) (fun s => ?_) (fun s r hr => ?_) fun s =>
    (hfields s).2.2
  · rw [entries, (hfields s).1]
    exact hb.entries s
  · rw [entries, (hfields s).1]
    exact List.Subperm.refl _
  · rw [(hfields s).2.1] at hr
    exact hb.sends s r hr

/-- A step that allocates packets or writes fields other than ids. -/
theorem Quiet.of_packets {b b' : Broker σ} (hnext : b.packets.next ≤ b'.packets.next)
    (hids : ∀ r < b.packets.next, b'.idOf r = b.idOf r)
    (hkinds : ∀ r < b.packets.next, b'.kindOf r = b.kindOf r)
    (ht : b'.tokens = b.tokens) (htrace : b'.publishes = b.publishes)
    (hs : b'.sessions = b.sessions) : Quiet b b' := by
  intro hb
  have hentries : ∀ s, b'.entries s = b.entries s := fun s => by rw [entries, entries, hs]
  refine ⟨⟨fun s pt hpt => ?_, fun s r hr => ?_⟩, hnext, hids, hkinds, by rw [ht], fun s => ?_,
    fun s => ?_, fun t h => .inl (by rwa [ht] at h), htrace⟩
  · rw [hentries] at hpt
    exact lt_of_lt_of_le (hb.entries s pt hpt) hnext
  · rw [hs] at hr
    exact lt_of_lt_of_le (hb.sends s r hr) hnext
  · rw [hentries]
    have hkey : (b.entries s).map b'.key = (b.entries s).map b.key := by
      refine List.map_congr_left fun pt hpt => ?_
      rw [key, key, hids pt.p (hb.entries s pt hpt)]
    rw [hkey]
    exact List.Subperm.refl _
  · rw [hs]
    exact ⟨rfl, rfl⟩

end MqttBroker
