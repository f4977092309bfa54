import CryptoTrading.Lib.JsonNumber
import CryptoTrading.Strategy.DynamicGridAdx
import CryptoTrading.Strategy.StaticGrid

/-! # The configs of the grids

A grid strategy hands its config to its base class through the JSON that it writes, with numbers
that may have wrapped around when they were read.
-/

namespace CryptoTrading

open Json

abbrev JsonObject := List (String × Number)

/-- A member is left at its default if the object has no such key. -/
def JsonObject.load {α : Type*} (json : JsonObject) (key : String) (codec : Codec α)
    (default : α) : Option α := codec.load default (json.lookup key)

namespace DynamicGridStrategyConfig

/-- That of the grid with a ban is the same. -/
def ofJson (json : JsonObject) : Option DynamicGridStrategyConfig := do
  let timeframe ← json.load "timeframe_s" .thousands 0
  let interval ← json.load "interval" .size 0
  let levelsPerSide ← json.load "levels_per_side" .unsigned 0
  let priceRadiusPerc ← json.load "price_radius_perc" .double 0
  return { timeframe, interval, levelsPerSide, priceRadiusPerc }

end DynamicGridStrategyConfig

namespace DynamicGridAdxStrategyConfig

def ofJson (json : JsonObject) : Option DynamicGridAdxStrategyConfig := do
  let timeframe ← json.load "timeframe_s" .thousands 0
  let interval ← json.load "interval" .size 0
  let levelsPerSide ← json.load "levels_per_side" .unsigned 0
  let priceRadiusPerc ← json.load "price_radius_perc" .double 0
  let adxInterval ← json.load "adx_interval" .size 0
  let adxThreshold ← json.load "adx_threshold" .double 0
  return { timeframe, interval, levelsPerSide, priceRadiusPerc, adxInterval, adxThreshold }

def toJson (config : DynamicGridAdxStrategyConfig) : JsonObject :=
  [("timeframe_s", Codec.thousands.put config.timeframe),
    ("interval", Codec.size.put config.interval),
    ("levels_per_side", Codec.unsigned.put config.levelsPerSide),
    ("price_radius_perc", Codec.double.put config.priceRadiusPerc),
    ("adx_interval", Codec.size.put config.adxInterval),
    ("adx_threshold", Codec.double.put config.adxThreshold)]

end DynamicGridAdxStrategyConfig

structure StaticGridStrategyConfig where
  timeframe : Milliseconds := 0
  interval : ℕ := 0
  levelWidthPerc : ℚ := 0
  deriving DecidableEq

namespace StaticGridStrategyConfig

def ofJson (json : JsonObject) : Option StaticGridStrategyConfig := do
  let timeframe ← json.load "timeframe_s" .thousands 0
  let interval ← json.load "interval" .size 0
  let levelWidthPerc ← json.load "level_width_perc" .double 0
  return { timeframe, interval, levelWidthPerc }

def toJson (config : StaticGridStrategyConfig) : JsonObject :=
  [("timeframe_s", Codec.thousands.put config.timeframe),
    ("interval", Codec.size.put config.interval),
    ("level_width_perc", Codec.double.put config.levelWidthPerc)]

def grid (config : StaticGridStrategyConfig) : StaticGridWithBanStrategyConfig :=
  ⟨config.timeframe, config.interval, config.levelWidthPerc⟩

end StaticGridStrategyConfig

def StaticGridWithBanStrategyConfig.ofJson (json : JsonObject) :
    Option StaticGridWithBanStrategyConfig := do
  let timeframe ← json.load "timeframe_s" .thousands 0
  let interval ← json.load "interval" .size 0
  let levelWidthPerc ← json.load "level_width_perc" .double 0
  return { timeframe, interval, levelWidthPerc }

variable {json : JsonObject} {key : String} {α : Type*} {codec : Codec α} {default x : α}

theorem get_put_of_load (hdefault : codec.get (codec.put default) = some default)
    (h : json.load key codec default = some x) : codec.get (codec.put x) = some x :=
  Codec.get_put_of_load hdefault h

theorem load_of_lookup (hlookup : json.lookup key = some (codec.put x))
    (hget : codec.get (codec.put x) = some x) : json.load key codec default = some x := by
  rw [JsonObject.load, hlookup]
  exact hget

theorem DynamicGridAdxStrategyConfig.ofJson_toJson {config : DynamicGridAdxStrategyConfig}
    (h : ofJson json = some config) :
    DynamicGridStrategyConfig.ofJson config.toJson = some config.grid := by
  simp only [ofJson, Option.bind_eq_bind, Option.bind_eq_some_iff] at h
  obtain ⟨timeframe, htimeframe, interval, hinterval, levelsPerSide, hlevels, _, -, _, -,
    _, -, heq⟩ := h
  obtain rfl := Option.some.inj heq
  rw [DynamicGridStrategyConfig.ofJson, load_of_lookup rfl (get_put_of_load rfl htimeframe),
    load_of_lookup rfl (get_put_of_load rfl hinterval),
    load_of_lookup rfl (get_put_of_load rfl hlevels)]
  rfl

theorem StaticGridStrategyConfig.ofJson_toJson {config : StaticGridStrategyConfig}
    (h : ofJson json = some config) :
    StaticGridWithBanStrategyConfig.ofJson config.toJson = some config.grid := by
  simp only [ofJson, Option.bind_eq_bind, Option.bind_eq_some_iff] at h
  obtain ⟨timeframe, htimeframe, interval, hinterval, _, -, heq⟩ := h
  obtain rfl := Option.some.inj heq
  rw [StaticGridWithBanStrategyConfig.ofJson,
    load_of_lookup rfl (get_put_of_load rfl htimeframe),
    load_of_lookup rfl (get_put_of_load rfl hinterval)]
  rfl

/--
Whatever JSON a grid strategy reads its config from, its base class reads the same members from
what the strategy writes.
-/
theorem base_config_eq (json : JsonObject) :
    (∀ config ∈ DynamicGridAdxStrategyConfig.ofJson json,
      DynamicGridStrategyConfig.ofJson config.toJson = some config.grid) ∧
    ∀ config ∈ StaticGridStrategyConfig.ofJson json,
      StaticGridWithBanStrategyConfig.ofJson config.toJson = some config.grid :=
  ⟨fun _ => DynamicGridAdxStrategyConfig.ofJson_toJson,
    fun _ => StaticGridStrategyConfig.ofJson_toJson⟩

/-- A negative interval wraps around in both. -/
theorem base_config_eq_negative :
    let json : JsonObject := [("timeframe_s", .float (3 / 2)), ("interval", .integer (-3)),
      ("levels_per_side", .integer 4), ("price_radius_perc", .integer 20)]
    ∃ config ∈ DynamicGridAdxStrategyConfig.ofJson json,
      config.grid = ⟨1000, 18446744073709551613, 4, 20⟩ ∧
        DynamicGridStrategyConfig.ofJson config.toJson = some config.grid := by
  intro json
  have hread : DynamicGridAdxStrategyConfig.ofJson json =
      some ⟨1000, 18446744073709551613, 4, 20, 0, 0⟩ := by decide +kernel
  exact ⟨_, hread, rfl, (base_config_eq json).1 _ hread⟩

end CryptoTrading
