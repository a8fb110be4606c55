import BifrostSocket.AccountSnapshots

/-!
# Open orders of the host and the secondary slot

The merge knows an order by its id and its account, while IB knows it by its perm id. Orders
placed by hand in TWS all have the id zero, and the clients of one account count their ids
on their own.
-/

namespace BifrostSocket.OpenOrderMerges
open SeenLists IngestorWatchlists ContractKeys AccountSnapshots

section Spec

/-- The slot is connected, and its snapshot of open orders can be taken. -/
def Shows (floatStr : PyFloat → String) (slot : Slot) (orders : List OpenOrder) : Prop :=
  ∃ c, slot.ready = some c ∧ c.getOpenOrdersSnapshot floatStr = some orders

/-- Every perm id of either list is in the result once, and a secondary order is left out
only for a host order with its perm id. -/
structure MergesAll (host sec out : List OpenOrder) : Prop where
  once : ∀ o, o ∈ host ∨ o ∈ sec → (out.map OpenOrder.permId).count o.permId = 1
  kept : ∀ o ∈ sec, o ∉ out → o.permId ∈ host.map OpenOrder.permId

/-- A secondary order has the pair of a host order, or of a secondary one before it, exactly
where it has the perm id of a host order. -/
def KeysIdentify (host sec : List OpenOrder) : Prop :=
  ∀ pre o post, sec = pre ++ o :: post →
    (o.key ∈ host.map OpenOrder.key ∨ o.key ∈ pre.map OpenOrder.key ↔
      o.permId ∈ host.map OpenOrder.permId)

end Spec

section Merging

variable {floatStr : PyFloat → String} {primary secondary : Slot} {host sec : List OpenOrder}

theorem mergedOpenOrders_eq (hhost : Shows floatStr primary host)
    (hsec : Shows floatStr secondary sec) :
    mergedOpenOrders floatStr primary (some secondary) =
      host ++ firstSeen OpenOrder.key (host.map OpenOrder.key) sec := by
  obtain ⟨hc, hready, hsnap⟩ := hhost
  obtain ⟨sc, hready', hsnap'⟩ := hsec
  simp only [mergedOpenOrders, Slot.openOrders, hready, hready', hsnap, hsnap', Option.getD_some]

/-- Where both lists have distinct perm ids, the merge is complete exactly when it leaves out
the secondary orders whose perm id the host has, and no other. -/
theorem mergesAll_iff_kept (hdh : (host.map OpenOrder.permId).Nodup)
    (hds : (sec.map OpenOrder.permId).Nodup) {kept : List OpenOrder} (hkept : kept.Sublist sec) :
    MergesAll host sec (host ++ kept) ↔
      ∀ o ∈ sec, o ∈ kept ↔ o.permId ∉ host.map OpenOrder.permId := by
  have hinj : ∀ o ∈ sec, ∀ o' ∈ sec, o.permId = o'.permId → o = o' :=
    fun o ho o' ho' heq => List.inj_on_of_nodup_map hds ho ho' heq
  have hdk : (kept.map OpenOrder.permId).Nodup := hds.sublist (hkept.map _)
  have hcount : ∀ p, ((host ++ kept).map OpenOrder.permId).count p =
      (host.map OpenOrder.permId).count p + (kept.map OpenOrder.permId).count p := by
    intro p
    rw [List.map_append, List.count_append]
  constructor
  · rintro ⟨honce, -⟩ o ho
    have hone := honce o (.inr ho)
    rw [hcount] at hone
    constructor
    · intro hmem hhost
      have hpos := List.count_pos_iff.mpr hhost
      have hpos' := List.count_pos_iff.mpr (List.mem_map_of_mem (f := OpenOrder.permId) hmem)
      omega
    · intro hhost
      rw [List.count_eq_zero_of_not_mem hhost, Nat.zero_add] at hone
      have hpos : 0 < (kept.map OpenOrder.permId).count o.permId := by omega
      obtain ⟨o', ho', heq⟩ := List.mem_map.mp (List.count_pos_iff.mp hpos)
      exact hinj o' (hkept.subset ho') o ho heq ▸ ho'
  · intro h
    refine ⟨fun o ho => ?_, fun o ho hout => ?_⟩
    · rw [hcount]
      by_cases hhost : o.permId ∈ host.map OpenOrder.permId
      · have hnot : o.permId ∉ kept.map OpenOrder.permId := by
          rintro hmem
          obtain ⟨o', ho', heq⟩ := List.mem_map.mp hmem
          exact (h o' (hkept.subset ho')).mp ho' (heq ▸ hhost)
        rw [List.count_eq_one_of_mem hdh hhost, List.count_eq_zero_of_not_mem hnot]
      · rcases ho with ho | ho
        · exact absurd (List.mem_map_of_mem ho) hhost
        · have hmem := List.mem_map_of_mem (f := OpenOrder.permId) ((h o ho).mpr hhost)
          rw [List.count_eq_zero_of_not_mem hhost, List.count_eq_one_of_mem hdk hmem]
    · by_contra hhost
      exact hout (List.mem_append_right _ ((h o ho).mpr hhost))

/-- The merge of two slots loses and repeats no order if and only if the pair of id and
account tells the secondary's orders apart as the perm id does. -/
theorem merged_open_orders_iff (hhost : Shows floatStr primary host)
    (hsec : Shows floatStr secondary sec) (hdh : (host.map OpenOrder.permId).Nodup)
    (hds : (sec.map OpenOrder.permId).Nodup) :
    MergesAll host sec (mergedOpenOrders floatStr primary (some secondary)) ↔
      KeysIdentify host sec := by
  rw [mergedOpenOrders_eq hhost hsec, mergesAll_iff_kept hdh hds (firstSeen_sublist ..)]
  have hnodup : sec.Nodup := hds.of_map
  constructor
  · rintro h pre o post rfl
    have hmem := h o (by simp)
    rw [mem_firstSeen_of_nodup OpenOrder.key hnodup, ← not_or, not_iff_not] at hmem
    exact hmem
  · intro h o ho
    obtain ⟨pre, post, rfl⟩ := List.append_of_mem ho
    rw [mem_firstSeen_of_nodup OpenOrder.key hnodup, ← not_or, not_iff_not]
    exact h pre o post rfl

end Merging

section Instances

/-- An order on a stock, by its ids. -/
def tradeOf (orderId permId : ℤ) : Trade where
  contract := none
  order := some ⟨some orderId, some permId, some "U1", some "BUY", some (.finite 1), none⟩
  orderStatus := none
  account := none

def slotOf (trades : List Trade) : Slot where
  connector := some ⟨true, none, fun _ => none, none, some trades⟩
  connectedState := true

theorem shows_slotOf (trades : List Trade) : Shows (fun _ => "") (slotOf trades)
    (trades.map (tradeToOpenOrderDict fun _ => "")) :=
  ⟨_, rfl, rfl⟩

/-- Both clients see the API order 7, and the secondary one that was placed by hand. -/
theorem merged_open_orders_iff_shared :
    MergesAll ([tradeOf 7 107].map (tradeToOpenOrderDict fun _ => ""))
      ([tradeOf 0 201, tradeOf 7 107].map (tradeToOpenOrderDict fun _ => ""))
      (mergedOpenOrders (fun _ => "") (slotOf [tradeOf 7 107])
        (some (slotOf [tradeOf 0 201, tradeOf 7 107]))) := by
  refine (merged_open_orders_iff (shows_slotOf _) (shows_slotOf _) (by decide) (by decide)).mpr ?_
  intro pre o post heq
  rcases pre with - | ⟨a, - | ⟨b, pre⟩⟩
  · obtain ⟨rfl, -⟩ := List.cons.inj heq
    decide
  · obtain ⟨rfl, htail⟩ := List.cons.inj heq
    obtain ⟨rfl, -⟩ := List.cons.inj htail
    decide
  · simp at heq

theorem second_manual_order_lost :
    (mergedOpenOrders (fun _ => "") (slotOf [tradeOf 0 101]) (some (slotOf [tradeOf 0 201]))).map
        OpenOrder.permId = [some 101] ∧
      ¬ MergesAll ([tradeOf 0 101].map (tradeToOpenOrderDict fun _ => ""))
        ([tradeOf 0 201].map (tradeToOpenOrderDict fun _ => ""))
        (mergedOpenOrders (fun _ => "") (slotOf [tradeOf 0 101])
          (some (slotOf [tradeOf 0 201]))) := by
  refine ⟨by decide, fun h => ?_⟩
  have hlost := h.once (tradeToOpenOrderDict (fun _ => "") (tradeOf 0 201)) (by decide)
  revert hlost
  decide

end Instances

end BifrostSocket.OpenOrderMerges
