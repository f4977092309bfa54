import CryptoTrading.Instance.Backtest

/-! # The feed and stop requests

One price of the feed is on its way at a time, and its handler reads the next one from
the generator. A stop request resets the generator but leaves the price in the queue,
which it overtakes: the handler of that price then has no generator to read from.
-/

namespace CryptoTrading

open Runs

namespace BacktestSystem

def pricesInFlight (s : BacktestSystem) : ℕ := s.inFlight.countP BacktestEvent.isPrice

/-- No stop request is handled while a price of the feed is on its way. -/
def StopsBetweenFeeds (s : BacktestSystem) (e : BacktestStep) : Prop :=
  s.handling? e = some .stop → s.pricesInFlight = 0

instance (s : BacktestSystem) (e : BacktestStep) : Decidable (s.StopsBetweenFeeds e) :=
  inferInstanceAs (Decidable (_ → _))

/-- At most one price is on its way, and then there is a generator for the next one. -/
structure Fed (s : BacktestSystem) : Prop where
  one : s.pricesInFlight ≤ 1
  generator : 0 < s.pricesInFlight →
    s.historicalMdGenerator.isSome ∧ s.backtestInProgress = true
  sound : s.failure ≠ some .badDereference

variable {s s' : BacktestSystem} {e : BacktestEvent} {es outbox : List BacktestEvent}
  {r : Reaction} {t : PublicTrade} {reader : SequentialMarketDataReader}

@[simp] theorem pricesInFlight_push :
    (s.push e).pricesInFlight = s.pricesInFlight + [e].countP BacktestEvent.isPrice := by
  rw [pricesInFlight, inFlight_push.countP_eq, List.countP_cons, List.countP_singleton]
  rfl

@[simp] theorem pricesInFlight_emit :
    (s.emit es).pricesInFlight = s.pricesInFlight + es.countP BacktestEvent.isPrice := by
  rw [pricesInFlight, inFlight_emit, List.countP_append]
  rfl

theorem pricesInFlight_flush (h : s.outbox = e :: outbox) :
    ({ s with outbox }.push e).pricesInFlight = s.pricesInFlight :=
  (inFlight_flush h).countP_eq _

theorem Emits.pricesInFlight (h : s.Emits s' es) : s'.pricesInFlight = s.pricesInFlight := by
  have hfilter := h.filter_inFlight (p := BacktestEvent.isPrice) fun e he => by
    cases e <;> first | rfl | cases he
  simp only [BacktestSystem.pricesInFlight, List.countP_eq_length_filter, hfilter]

theorem Finishes.pricesInFlight (h : s.Finishes s') : s'.pricesInFlight = s.pricesInFlight := by
  rw [BacktestSystem.pricesInFlight, h.inFlight]
  rfl

theorem pricesInFlight_next (h : s.next? = some (e, s')) :
    s.pricesInFlight = s'.pricesInFlight + [e].countP BacktestEvent.isPrice := by
  rw [pricesInFlight, inFlight_next h, List.countP_cons, List.countP_singleton]
  rfl

namespace Fed

theorem init (symbol : Symbol) : (init symbol).Fed where
  one := Nat.zero_le _
  generator := fun h => absurd h (by simp [pricesInFlight, inFlight, BacktestSystem.init])
  sound := by simp [BacktestSystem.init]

theorem congr (h : s.Fed) (hprices : s'.pricesInFlight = s.pricesInFlight)
    (hgenerator : s'.historicalMdGenerator = s.historicalMdGenerator)
    (hprogress : s'.backtestInProgress = s.backtestInProgress)
    (hsound : s'.failure ≠ some .badDereference) : s'.Fed := by
  constructor
  · rw [hprices]
    exact h.one
  · rw [hprices, hgenerator, hprogress]
    exact h.generator
  · exact hsound

theorem emits (h : s.Fed) (he : s.Emits s' es) : s'.Fed :=
  h.congr he.pricesInFlight (by rw [he.eq]) (by rw [he.eq]) fun hf => h.sound (he.failure hf)

theorem finishes (h : s.Fed) (hf : s.Finishes s') : s'.Fed := by
  apply h.congr hf.pricesInFlight
  · rw [hf.eq]
  · rw [hf.eq]
  · rw [hf.eq]
    exact h.sound

/-- With no price on its way, the generator does not matter. -/
theorem of_none (hnone : s.pricesInFlight = 0) (hsound : s.failure ≠ some .badDereference) :
    s.Fed where
  one := hnone.trans_le zero_le_one
  generator := fun h => absurd h (by omega)
  sound := hsound

theorem pushNextPrice (hnone : s.pricesInFlight = 0) (hprogress : s.backtestInProgress = true)
    (hgenerator : s.historicalMdGenerator.isSome) (hsound : s.failure ≠ some .badDereference) :
    s.pushNextPrice.Fed := by
  rcases s.pushNextPrice_cases with ⟨hno, -⟩ | ⟨reader, -, -, h⟩ | ⟨reader, t, reader', -, -, h⟩
  · rw [hno] at hgenerator
    cases hgenerator
  · rw [h]
    apply of_none
    · rw [pricesInFlight_emit]
      exact hnone
    · exact hsound
  · rw [h]
    refine ⟨?_, fun _ => ⟨rfl, hprogress⟩, hsound⟩
    rw [pricesInFlight_emit]
    exact (congrArg (· + 1) hnone).le

theorem handlePrice (hnone : s.pricesInFlight = 0) (hprogress : s.backtestInProgress = true)
    (hgenerator : s.historicalMdGenerator.isSome) (hsound : s.failure ≠ some .badDereference) :
    (s.handlePrice r t).Fed := by
  obtain ⟨es, hes⟩ := s.emits_handleMdPrice r t
  apply pushNextPrice (hes.pricesInFlight.trans hnone)
  · rw [hes.eq]
    exact hprogress
  · rw [hes.eq]
    exact hgenerator
  · exact fun hf => hsound (hes.failure hf)

theorem handleFeed {guid : Guid} (h : s.Fed) : (s.handleFeed guid reader).Fed := by
  rcases s.handleFeed_cases guid reader with
    ⟨-, heq⟩ | ⟨hgenerator, -, ⟨reader', -, heq⟩ | ⟨t, reader', -, heq⟩⟩
  · rwa [heq]
  all_goals
    have hnone : s.pricesInFlight = 0 := by
      by_contra hne
      have hsome := (h.generator (Nat.pos_of_ne_zero hne)).1
      rw [hgenerator] at hsome
      cases hsome
    rw [heq]
  · exact of_none hnone h.sound
  · refine ⟨?_, fun _ => ⟨rfl, rfl⟩, h.sound⟩
    rw [pricesInFlight_emit]
    exact (congrArg (· + 1) hnone).le

theorem handleStop (hnone : s.pricesInFlight = 0) (hsound : s.failure ≠ some .badDereference) :
    s.handleStop.Fed := by
  obtain ⟨es, hes⟩ := s.emits_closePosition s.lastTsAndPrice.2 s.lastTsAndPrice.1
  have hnone' := hes.pricesInFlight.trans hnone
  have hsound' : (s.closePosition s.lastTsAndPrice.2 s.lastTsAndPrice.1).failure ≠
      some .badDereference := fun hf => hsound (hes.failure hf)
  simp only [BacktestSystem.handleStop]
  split
  · exact of_none hnone' hsound'
  · exact of_none hnone' hsound'

theorem setPanic (h : s.Fed) (doPanic : Bool) : (s.setPanic doPanic).Fed := by
  unfold BacktestSystem.setPanic
  split
  · exact h.congr rfl rfl rfl h.sound
  · exact h

theorem handleEvent (h : s.Fed) (hprice : e.isPrice = false)
    (hstop : e = .stop → s.pricesInFlight = 0) : (s.handleEvent r e).Fed := by
  cases e with
  | start =>
    apply Fed.finishes _ (finishes_afterEveryEvent _)
    exact h.congr rfl rfl rfl h.sound
  | stop => exact (handleStop (hstop rfl) h.sound).finishes (finishes_afterEveryEvent _)
  | feed guid reader => exact h.handleFeed.finishes (finishes_afterEveryEvent _)
  | price t => cases hprice
  | error doPanic =>
    have hp := h.setPanic doPanic
    exact hp.congr (by simp [BacktestSystem.handleEvent, BacktestEvent.isPrice]) rfl rfl hp.sound
  | gateway x =>
    have hom : s.Emits { s with om := s.om.step x } [] :=
      .of_eq rfl id rfl (OrderManager.symbol_step s.om x)
    exact h.emits (hom.trans (emits_emitCallbacks _ r.first))
  | trade t =>
    apply Fed.finishes _ (finishes_afterEveryEvent _)
    apply Fed.emits _ (emits_emitCallbacks _ r.first)
    exact h.congr rfl rfl rfl h.sound
  | callback =>
    obtain ⟨es, hes, -⟩ := s.emits_actions r.actions
    exact h.emits hes

theorem push (h : s.Fed) (hprice : e.isPrice = false) : (s.push e).Fed := by
  have hprices : (s.push e).pricesInFlight = s.pricesInFlight := by
    rw [pricesInFlight_push, List.countP_singleton, if_neg (by simp [hprice]), add_zero]
  exact h.congr hprices rfl rfl h.sound

/-- Each step keeps the feed going if no stop request meets a price on its way. -/
theorem step {x : BacktestStep} (h : s.Fed) (hok : s.StopsBetweenFeeds x) : (s.step x).Fed := by
  unfold BacktestSystem.step
  split
  case isFalse => exact h
  case isTrue hlive =>
    cases x with
    | runAsync => exact push (h.congr rfl rfl rfl h.sound) rfl
    | stopAsync doPanic => exact (h.setPanic doPanic).push rfl
    | answer guid reader => exact push (h.congr rfl rfl rfl h.sound) rfl
    | delayed => exact h.push rfl
    | flush =>
      simp only [advance]
      split
      case h_1 e outbox hout => exact h.congr (pricesInFlight_flush hout) rfl rfl h.sound
      case h_2 => exact h
    | run r =>
      simp only [advance]
      cases hnext : s.next? with
      | none => exact h
      | some p =>
        obtain ⟨e, s'⟩ := p
        have hcount := pricesInFlight_next hnext
        obtain ⟨-, -, heq⟩ := next?_spec hnext
        have hsound : s'.failure ≠ some .badDereference := by rw [heq]; exact h.sound
        have hgenerator : s'.historicalMdGenerator = s.historicalMdGenerator := by rw [heq]
        have hprogress : s'.backtestInProgress = s.backtestInProgress := by rw [heq]
        have hone := h.one
        cases e with
        | price t =>
          have hsame : [BacktestEvent.price t].countP BacktestEvent.isPrice = 1 := rfl
          obtain ⟨hgen, hprog⟩ := h.generator (by omega)
          rw [← hgenerator] at hgen
          rw [← hprogress] at hprog
          exact (handlePrice (by omega) hprog hgen hsound).finishes (finishes_afterEveryEvent _)
        | _ =>
          have hsame : s'.pricesInFlight = s.pricesInFlight := hcount.symm
          have hfed : s'.Fed := h.congr hsame hgenerator hprogress hsound
          apply hfed.handleEvent rfl
          intro he
          rw [hsame]
          apply hok
          simp [handling?, hlive, hnext, he]

end Fed

/-- As long as stop requests are handled between the prices of a feed only, the handler of a
price always has a generator to read the next one from. -/
theorem generator_of_stopsBetweenFeeds (symbol : Symbol) (xs : List BacktestStep)
    (h : Meets step StopsBetweenFeeds (init symbol) xs) :
    (after step (init symbol) xs).failure ≠ some .badDereference :=
  (h.invariant (fun _ _ hs hok => hs.step hok) (Fed.init symbol)).sound

/-- A feed of two prices that is stopped after it has ended. -/
theorem generator_of_stopsBetweenFeeds_two :
    let symbol : Symbol := ⟨"BTCUSDT", ⟨1, 100, 1⟩⟩
    let reader : SequentialMarketDataReader := .new [[⟨1, 100, ⟨1⟩⟩], [], [⟨2, 101, ⟨1⟩⟩]]
    let xs : List BacktestStep :=
      [.runAsync, .run {}, .answer Guid.first reader, .run {}, .flush, .run {}, .flush, .run {},
        .flush, .stopAsync false, .run {}, .run {}]
    Meets step StopsBetweenFeeds (init symbol) xs ∧
      (after step (init symbol) xs).failure ≠ some .badDereference := by
  intro symbol reader xs
  have h : Meets step StopsBetweenFeeds (init symbol) xs := by decide +kernel
  exact ⟨h, generator_of_stopsBetweenFeeds symbol xs h⟩

/-- The user's stop request overtakes the price that is queued. -/
theorem price_after_stop :
    let symbol : Symbol := ⟨"BTCUSDT", ⟨1, 100, 1⟩⟩
    let reader : SequentialMarketDataReader := .new [[⟨1, 100, ⟨1⟩⟩, ⟨2, 101, ⟨1⟩⟩]]
    (after step (init symbol)
      [.runAsync, .run {}, .answer Guid.first reader, .run {}, .flush, .stopAsync false, .run {},
        .run {}]).failure = some .badDereference := by
  decide +kernel

end BacktestSystem

end CryptoTrading
