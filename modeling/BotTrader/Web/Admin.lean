import BotTrader.Web.Sessions

/-! How many sessions are the administrator. The right itself is the id 0 of a
session, and a log-in looks for an entry under the key 0; an entry is taken out by the
id of the session that goes, and that once for each of its failures. -/

namespace BotTrader.Web

open Automata Handler Boost Cpp

namespace World

variable {lib : Library} {w w' : World} {e : Event} {j k : ℕ}

/-- No two connected sessions have the id 0. -/
def OneAdmin (w : World) : Prop :=
  ∀ j k, w.Connected j → w.Connected k → w.server.id j = 0 → w.server.id k = 0 → j = k

/-- An `on_close` of a session with the id 0 does not find the entry of another, and a
log-in gets an id in range. -/
def OwnAdmin (lib : Library) (w : World) : Event → Prop
  | .onClose k => w.server.id k = 0 → ∀ x ∈ w.server.clientMap.findKey 0, x.2 = k
  | e => w.InRange lib e

instance (lib : Library) (w : World) : ∀ e, Decidable (w.OwnAdmin lib e)
  | .onClose k =>
    inferInstanceAs (Decidable (w.server.id k = 0 → ∀ x ∈ w.server.clientMap.findKey 0, x.2 = k))
  | .receive k msg => inferInstanceAs (Decidable (w.InRange lib (.receive k msg)))
  | .accept | .onHandshake _ _ | .onAccept _ _ | .readError _ | .writeError _
  | .send _ _ | .onPrice _ | .onBinanceError _ | .onAccount _ | .onOrdersList _
  | .onTradeSteps _ _ => .isTrue trivial

end World

namespace Server

/-- For the sessions in `c`, the key 0 stands for those with the id 0, and for one only. -/
structure Sole (s : Server) (c : ℕ → Prop) : Prop where
  entry : ∀ k, c k → s.id k = 0 → (0, k) ∈ s.clientMap
  unique : ∀ j k, (0, j) ∈ s.clientMap → (0, k) ∈ s.clientMap → j = k
  counts : s.Counts

variable {s s' : Server} {c c' : ℕ → Prop} {j k : ℕ} {i : ℤ} {x : ℤ × ℕ}

/-- The table and the ids are as before, and no other sessions count. -/
theorem Sole.congr (h : s.Sole c) (hm : s'.clientMap = s.clientMap) (hid : s'.id = s.id)
    (hi : s'.Counts) (hc : ∀ j, c' j → c j) : s'.Sole c' where
  entry k hk h0 := by
    rw [hm]
    exact h.entry k (hc k hk) (hid ▸ h0)
  unique := hm ▸ h.unique
  counts := hi

/-- Entries of other sessions outlast a log-in. -/
theorem mem_clientMap_logIn (hk : (-1, k) ∈ s.clientMap) (hi : 0 ≤ i) (hx : x ∈ s.clientMap)
    (hxk : x.2 ≠ k) : x ∈ (s.logIn k i).clientMap := by
  obtain ⟨y, hy, hp⟩ := Multimap.exists_cons_eraseValue_perm hk rfl
  rw [clientMap_logIn hk hi, Multimap.mem_emplace]
  refine .inr ((List.mem_cons.mp (hp.mem_iff.mp hx)).resolve_left fun he => hxk ?_)
  rw [he, hy]

/-- After a log-in, an entry is the new one or an old one. -/
theorem of_mem_clientMap_logIn (hk : (-1, k) ∈ s.clientMap) (hi : 0 ≤ i)
    (hx : x ∈ (s.logIn k i).clientMap) : x = (i, k) ∨ x ∈ s.clientMap := by
  rw [clientMap_logIn hk hi, Multimap.mem_emplace] at hx
  exact hx.imp_right Multimap.mem_of_mem_eraseValue

/-- The id 0 is given away when no entry has the key 0. -/
theorem Sole.logIn (h : s.Sole c) (hk : (-1, k) ∈ s.clientMap) (hi : 0 ≤ i)
    (h0 : i = 0 → s.clientMap.findKey 0 = none) : (s.logIn k i).Sole c where
  entry j hj hj0 := by
    by_cases hjk : j = k
    · subst hjk
      obtain rfl : i = 0 := id_logIn_self.symm.trans hj0
      rw [clientMap_logIn hk hi]
      exact Multimap.mem_emplace.mpr (.inl rfl)
    · rw [id_logIn_of_ne hjk] at hj0
      exact mem_clientMap_logIn hk hi (h.entry j hj hj0) hjk
  unique a b ha hb := by
    by_cases hz : i = 0
    · have new {l : ℕ} (hl : (0, l) ∈ (s.logIn k i).clientMap) : l = k := by
        rcases of_mem_clientMap_logIn hk hi hl with he | hm
        · exact congrArg Prod.snd he
        · exact absurd rfl (Multimap.findKey_eq_none.mp (h0 hz) _ hm)
      rw [new ha, new hb]
    · have old {l : ℕ} (hl : (0, l) ∈ (s.logIn k i).clientMap) : (0, l) ∈ s.clientMap :=
        (of_mem_clientMap_logIn hk hi hl).resolve_left fun he => hz (congrArg Prod.fst he).symm
      exact h.unique a b (old ha) (old hb)
  counts := by
    rw [Counts, currId_logIn]
    exact h.counts

end Server

open Server

theorem LogIn.sole {s s' : Server} {k : ℕ} {password : String} {c : ℕ → Prop}
    (h : LogIn s k password s') (hs : s.Sole c) (hm : s.currId = intMax → ¬s.Joins k password) :
    s'.Sole c := by
  cases h with
  | refused => exact hs
  | admin hp hi h0 hk => exact hs.logIn hk (le_refl 0) fun _ => h0
  | user h =>
    have hne : s.currId ≠ intMax := fun he => hm he h
    have hpos := hs.counts.nextId_pos hne
    have hn : s.nextId.Sole c := ⟨hs.entry, hs.unique, hs.counts.nextId hne⟩
    exact hn.logIn h.fresh hpos.le fun h0 => absurd h0 hpos.ne'

namespace World

variable {lib : Library} {w : World} {e : Event} {j k : ℕ}

/-- The invariant behind the single administrator. -/
def Sole (w : World) : Prop := w.server.Sole w.Connected

theorem Sole.oneAdmin (h : w.Sole) : w.OneAdmin := fun j k hj hk hj0 hk0 =>
  h.unique j k (h.entry j hj hj0) (h.entry k hk hk0)

theorem Sole.accept (h : w.Sole) : (w.handle lib .accept).1.Sole where
  entry j hj h0 := by
    by_cases hja : j = w.accepted
    · subst hja
      simp [handle, call, onConnect, Server.id, Server.emplace] at h0
    · have hid : w.server.id j = 0 := by
        simpa [handle, call, onConnect, Server.id, Server.emplace, Function.update_of_ne hja]
          using h0
      have hlt : j < w.accepted + 1 ↔ j < w.accepted := by omega
      have hc : w.Connected j := by
        simpa [handle, Connected, World.setLink, phase, call, hja, hlt] using hj
      exact Multimap.mem_emplace.mpr (.inr (h.entry j hc hid))
  unique j k hj hk := by
    have old {i : ℕ} (hi : (0, i) ∈ w.server.clientMap.emplace (-1) w.accepted) :
        (0, i) ∈ w.server.clientMap :=
      (Multimap.mem_emplace.mp hi).resolve_left fun he => by simp at he
    exact h.unique j k (old hj) (old hk)
  counts := h.counts

theorem Sole.receive (h : w.Sole) {msg : Bytes} (ho : ¬w.server.Overflows lib k msg) :
    (w.call (onReceive lib k msg)).1.Sole := by
  have hr : Received lib w.server k msg (w.call (onReceive lib k msg)).1.server :=
    state_onReceive lib k msg w.server
  suffices hs : ∀ s', Received lib w.server k msg s' → s'.Sole w.Connected from hs _ hr
  intro s' hr
  cases hr with
  | same => exact h
  | logIn hp hc hl => exact hl.sole h (not_overflows hp hc ho)
  | ready => exact Server.Sole.congr h rfl id_setReady h.counts fun _ => id

/-- The entries of other administrators outlast an `on_close`. -/
theorem Sole.close (h : w.Sole) (hc : 0 < (w.link k).closing) (ho : w.OwnAdmin lib (.onClose k)) :
    (w.handle lib (.onClose k)).1.Sole := by
  simp only [handle, if_pos hc]
  refine ⟨fun j hj hj0 => ?_, fun a b ha hb => ?_, h.counts⟩
  · have hconn : j ≠ k ∧ w.Connected j := by
      rw [connected_call, connected_setLink] at hj
      by_cases hjk : j = k
      · simp [hjk] at hj
      · exact ⟨hjk, by simpa [hjk] using hj⟩
    have hm : (0, j) ∈ w.server.clientMap := h.entry j hconn.2 hj0
    show (0, j) ∈ w.server.clientMap.eraseKey (w.server.id k)
    rcases hf : w.server.clientMap.findKey (w.server.id k) with _ | x
    · rwa [Multimap.eraseKey_of_none hf]
    · have hp := Multimap.cons_eraseKey_perm hf
      refine (List.mem_cons.mp (hp.mem_iff.mp hm)).resolve_left fun he => hconn.1 ?_
      have hk0 : w.server.id k = 0 := by
        rw [← Multimap.fst_of_findKey hf, ← he]
      exact (congrArg Prod.snd he).trans (ho hk0 x (hk0 ▸ hf))
  · exact h.unique a b (Multimap.mem_of_mem_eraseKey ha) (Multimap.mem_of_mem_eraseKey hb)

theorem sole_step (h : w.Sole) (ho : w.OwnAdmin lib e) : (w.step lib e).1.Sole := by
  refine step_of_move h fun w' hm => ?_
  cases hm with
  | stay => exact h
  | tells e hm =>
    rw [Sole, server_tells hm]
    exact h
  | @link _ k l hp hl hc =>
    refine Server.Sole.congr h rfl rfl h.counts fun j hj => ?_
    rw [connected_setLink] at hj
    split at hj
    · next hjk =>
      subst hjk
      exact ⟨hj.1, hp, hc ▸ hj.2.2⟩
    · exact hj
  | accept => exact h.accept
  | receive msg hp => exact h.receive (ho hp)
  | close hc => exact h.close hc ho

/-- In a run in which `on_close` of an administrator finds no other administrator's
entry and the ids do not overflow, at most one connected session has the id 0. -/
theorem oneAdmin_of_ownAdmin (lib : Library) (adminPassword userPassword : String)
    (interface : Interface) (symbolsList : List String) (es : List Event)
    (h : (webServer lib).Along (OwnAdmin lib)
      (init adminPassword userPassword interface symbolsList) es) :
    ((webServer lib).run (init adminPassword userPassword interface symbolsList) es).OneAdmin := by
  have h0 : (init adminPassword userPassword interface symbolsList).Sole :=
    ⟨fun k hk => absurd hk.1 (Nat.not_lt_zero k), fun _ _ hj => absurd hj List.not_mem_nil,
      counts_init _ _ _ _⟩
  exact (Machine.run_invariant Sole (fun _ _ hw ho => sole_step hw ho) h0 h).oneAdmin

end World

/-! ### Two failures of one session -/

theorem ownAdmin_disconnect : (webServer loginLibrary).Along (World.OwnAdmin loginLibrary) started
    (connect 0 ++ disconnect 0 ++ connect 1) := by decide +kernel

theorem oneAdmin_after_close :
    ((webServer loginLibrary).run started (connect 0 ++ disconnect 0 ++ connect 1)).OneAdmin :=
  World.oneAdmin_of_ownAdmin loginLibrary "123" "456" .IntfWeb ["BTC"]
    (connect 0 ++ disconnect 0 ++ connect 1) ownAdmin_disconnect

/-- The administrator's read and write fail, and another logs in between the two closes. -/
def twoFailures : List Event :=
  connect 0 ++ [.writeError 0, .readError 0, .onClose 0] ++ connect 1 ++ [.onClose 0] ++ connect 2

theorem two_admins : ¬∀ (lib : Library) (adminPassword userPassword : String)
    (interface : Interface) (symbolsList : List String) (es : List Event),
    ((webServer lib).run (.init adminPassword userPassword interface symbolsList) es).OneAdmin := by
  intro h
  have hconn : ((webServer loginLibrary).run started twoFailures).Connected 1 ∧
      ((webServer loginLibrary).run started twoFailures).Connected 2 := by decide +kernel
  have hid : ((webServer loginLibrary).run started twoFailures).server.id 1 = 0 ∧
      ((webServer loginLibrary).run started twoFailures).server.id 2 = 0 := by decide +kernel
  exact absurd (h loginLibrary "123" "456" .IntfWeb ["BTC"] twoFailures 1 2 hconn.1 hconn.2
    hid.1 hid.2) (by decide)

end BotTrader.Web
