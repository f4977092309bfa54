import CryptoTrading.Engine.OrderManager
import CryptoTrading.Lib.Runs

/-! # Updates of the take profit and stop loss

An update of the gateway names the request that it is about. The order manager applies it to
its last request without a look at the name.
-/

namespace CryptoTrading

open Runs

namespace TpslFullPos

variable (o : TpslFullPos) (r : TpslUpdatedEvent)

def onResponse : TpslFullPos :=
  { o with
    acked := true
    rejectReason := r.rejectReason
    suspended := r.setUp
    triggered := r.triggered }

def Reported : Prop :=
  o.acked = true ∧ o.rejectReason = r.rejectReason ∧ o.suspended = r.setUp ∧
    o.triggered = r.triggered

instance : Decidable (o.Reported r) := inferInstanceAs (Decidable (_ ∧ _))

variable {o r}

theorem onResponse_eq_self_iff : o.onResponse r = o ↔ o.Reported r := by
  constructor
  · intro h
    rw [← h]
    exact ⟨rfl, rfl, rfl, rfl⟩
  · rintro ⟨hacked, hreject, hsuspended, htriggered⟩
    rw [onResponse, ← hacked, ← hreject, ← hsuspended, ← htriggered]

end TpslFullPos

theorem OrderManager.tpsl_onTpslResponse {om : OrderManager} {o : TpslFullPos}
    (h : om.tpsl = some o) (r : TpslUpdatedEvent) :
    (om.onTpslResponse r).1.tpsl =
      if ¬ r.setUp ∧ r.triggered then none else some (o.onResponse r) := by
  simp only [onTpslResponse, h]
  split_ifs <;> rfl

theorem OrderManager.nextGuid_onTpslResponse (om : OrderManager) (r : TpslUpdatedEvent) :
    (om.onTpslResponse r).1.nextGuid = om.nextGuid := by
  unfold onTpslResponse
  split
  · rfl
  · split_ifs <;> rfl

inductive TpslUpdateStep
  | sendTpsl (takeProfitPrice stopLossPrice : ℚ) (side : Side) (ts : Milliseconds)
  | updated (r : TpslUpdatedEvent)
  deriving DecidableEq

/-- The order manager with the objects of all requests that it has sent. -/
structure TpslObjects where
  om : OrderManager
  objects : GuidMap TpslFullPos

namespace TpslObjects

def init (symbol : Symbol) : TpslObjects := ⟨.init symbol, ∅⟩

variable (s : TpslObjects)

def sendTpsl (takeProfitPrice stopLossPrice : ℚ) (side : Side) (ts : Milliseconds) :
    TpslObjects :=
  let (om, _) := s.om.sendTpsl takeProfitPrice stopLossPrice side ts
  { om, objects := om.tpsl.elim s.objects fun o => s.objects.insert o.guid o }

def updated (r : TpslUpdatedEvent) : TpslObjects where
  om := (s.om.onTpslResponse r).1
  objects := s.om.tpsl.elim s.objects fun o => s.objects.insert o.guid (o.onResponse r)

def step : TpslUpdateStep → TpslObjects
  | .sendTpsl takeProfitPrice stopLossPrice side ts =>
    s.sendTpsl takeProfitPrice stopLossPrice side ts
  | .updated r => s.updated r

/-- A step changes no request but the one that it is about. -/
def KeepsOthers : TpslUpdateStep → Prop
  | .sendTpsl takeProfitPrice stopLossPrice side ts => ∀ g ∈ s.objects,
    (s.sendTpsl takeProfitPrice stopLossPrice side ts).objects.lookup g = s.objects.lookup g
  | .updated r => ∀ g, g ≠ r.guid → (s.updated r).objects.lookup g = s.objects.lookup g

/-- An update comes while the order manager holds the request that it is about, none, or one
that is in the reported state. -/
def AboutLast : TpslUpdateStep → Prop
  | .sendTpsl .. => True
  | .updated r => ∀ o ∈ s.om.tpsl, o.guid = r.guid ∨ o.Reported r

structure Recorded : Prop where
  held : ∀ o ∈ s.om.tpsl, s.objects.lookup o.guid = some o
  fresh : ∀ g ∈ s.objects, g < s.om.nextGuid

variable {s} {r : TpslUpdatedEvent} {o : TpslFullPos}

theorem updated_of_none (h : s.om.tpsl = none) : s.updated r = s := by
  simp only [updated, OrderManager.onTpslResponse, h]
  rfl

theorem objects_updated (h : s.om.tpsl = some o) :
    (s.updated r).objects = s.objects.insert o.guid (o.onResponse r) := by
  simp only [updated, h]
  rfl

theorem Recorded.init (symbol : Symbol) : (init symbol).Recorded := by
  constructor
  · rintro o ⟨⟩
  · intro g hg
    exact absurd hg (AList.notMem_empty g)

theorem Recorded.sendTpsl (h : s.Recorded) (takeProfitPrice stopLossPrice : ℚ) (side : Side)
    (ts : Milliseconds) : (s.sendTpsl takeProfitPrice stopLossPrice side ts).Recorded := by
  constructor
  · rintro o ⟨⟩
    exact AList.lookup_insert _
  · intro g hg
    rcases (AList.mem_insert _).mp hg with rfl | hg
    · exact Nat.lt_succ_self _
    · exact (h.fresh g hg).trans (Nat.lt_succ_self _)

theorem Recorded.updated (h : s.Recorded) (r : TpslUpdatedEvent) : (s.updated r).Recorded := by
  cases htpsl : s.om.tpsl with
  | none =>
    rw [updated_of_none htpsl]
    exact h
  | some o =>
    have hmem : o.guid ∈ s.objects := by
      rw [← AList.lookup_isSome, h.held o htpsl]
      rfl
    constructor
    · intro o' ho'
      rw [objects_updated htpsl]
      rw [TpslObjects.updated, OrderManager.tpsl_onTpslResponse htpsl r] at ho'
      split at ho'
      · cases ho'
      · cases ho'
        exact AList.lookup_insert _
    · intro g hg
      rw [objects_updated htpsl] at hg
      refine lt_of_lt_of_eq ?_ (s.om.nextGuid_onTpslResponse r).symm
      rcases (AList.mem_insert _).mp hg with rfl | hg
      · exact h.fresh _ hmem
      · exact h.fresh g hg

theorem Recorded.step (h : s.Recorded) (x : TpslUpdateStep) : (s.step x).Recorded := by
  cases x with
  | sendTpsl takeProfitPrice stopLossPrice side ts =>
    exact h.sendTpsl takeProfitPrice stopLossPrice side ts
  | updated r => exact h.updated r

/-- The object that the order manager holds is the only one that an update can change. -/
theorem Recorded.keepsOthers_iff (h : s.Recorded) (x : TpslUpdateStep) :
    s.KeepsOthers x ↔ s.AboutLast x := by
  cases x with
  | sendTpsl takeProfitPrice stopLossPrice side ts =>
    refine iff_of_true (fun g hg => ?_) trivial
    exact AList.lookup_insert_ne (h.fresh g hg).ne
  | updated r =>
    simp only [KeepsOthers, AboutLast]
    cases htpsl : s.om.tpsl with
    | none =>
      rw [updated_of_none htpsl]
      exact iff_of_true (fun _ _ => rfl) nofun
    | some o =>
      rw [objects_updated htpsl]
      constructor
      · rintro hkeeps o' ⟨⟩
        by_cases hguid : o.guid = r.guid
        · exact .inl hguid
        · have hsame := hkeeps o.guid hguid
          rw [AList.lookup_insert, h.held o htpsl, Option.some.injEq] at hsame
          exact .inr (TpslFullPos.onResponse_eq_self_iff.mp hsame)
      · intro habout g hg
        rcases habout o rfl with hguid | hreported
        · exact AList.lookup_insert_ne (hguid ▸ hg)
        · rw [TpslFullPos.onResponse_eq_self_iff.mpr hreported]
          by_cases hheld : g = o.guid
          · rw [hheld, AList.lookup_insert, h.held o htpsl]
          · exact AList.lookup_insert_ne hheld

/-- Requests change only by updates about them just if every update finds the order manager
with its own request, with none, or with one that is in the reported state. -/
theorem keepsOthers_iff_aboutLast (symbol : Symbol) (xs : List TpslUpdateStep) :
    Meets step KeepsOthers (init symbol) xs ↔ Meets step AboutLast (init symbol) xs :=
  meets_congr_invariant (fun _ x (h : Recorded _) => h.step x) (fun _ x h => h.keepsOthers_iff x)
    (.init symbol)

/-- The first of two requests is rejected late. -/
theorem late_reject_changes_last :
    let symbol : Symbol := ⟨"BTCUSDT", ⟨1, 100, 1⟩⟩
    let s := after step (init symbol) [.sendTpsl 110 90 .sell 1, .sendTpsl 120 100 .sell 2]
    let r : TpslUpdatedEvent := ⟨"BTCUSDT", 1, false, false, some "Request timed out"⟩
    (s.objects.lookup 2).map TpslFullPos.status = some .pending ∧
      ((s.updated r).objects.lookup 2).map TpslFullPos.status = some .rejected ∧
      ¬ s.KeepsOthers (.updated r) := by
  intro symbol s r
  refine ⟨by decide +kernel, by decide +kernel, fun hkeeps => ?_⟩
  exact absurd (congrArg (Option.map TpslFullPos.status) (hkeeps 2 (by decide)))
    (by decide +kernel)

end TpslObjects

end CryptoTrading
