import CryptoTrading.MarketData.CandleBuilder
import CryptoTrading.Primitives.Parsing
import CryptoTrading.Lib.Occurrence

/-! # The files of historical trades

Each line of a file is a trade, in fields between commas. Its time is in seconds, of which the
first three digits after the point are kept.
-/

namespace CryptoTrading

open Occurrence Decimal

/-- The loop of `split_string`, for a number of turns. -/
def splitLoop (s delimiter : List Char) : ℕ → ℕ → List (List Char) → Option (List (List Char))
  | 0, _, _ => none
  | turns + 1, posStart, res =>
    match find s delimiter posStart with
    | some posEnd =>
      let token := (s.drop posStart).take (posEnd - posStart)
      splitLoop s delimiter turns (posEnd + delimiter.length) (res ++ [token])
    | none => some (res ++ [s.drop posStart])

/-- `none` where the loop does not end. Otherwise it ends within these turns. -/
def splitString (s delimiter : List Char) : Option (List (List Char)) :=
  splitLoop s delimiter (s.length + 1) 0 []

structure SplitsInto (delimiter s : List Char) (fields : List (List Char)) : Prop where
  ne_nil : fields ≠ []
  not_infix : ∀ f ∈ fields, ¬ delimiter <:+: f
  join : delimiter.intercalate fields = s

section Split

variable {s delimiter : List Char} {posStart posEnd turns : ℕ} {fields res : List (List Char)}

theorem SplitsInto.singleton (h : find s delimiter posStart = none) (hpos : posStart ≤ s.length) :
    SplitsInto delimiter (s.drop posStart) [s.drop posStart] where
  ne_nil := List.cons_ne_nil _ _
  not_infix := by simpa using not_infix_of_find_eq_none h hpos
  join := List.intercalate_singleton

theorem SplitsInto.cons (h : find s delimiter posStart = some posEnd) (hne : delimiter ≠ [])
    (hfields : SplitsInto delimiter (s.drop (posEnd + delimiter.length)) fields) :
    SplitsInto delimiter (s.drop posStart)
      ((s.drop posStart).take (posEnd - posStart) :: fields) where
  ne_nil := List.cons_ne_nil _ _
  not_infix := List.forall_mem_cons.mpr ⟨not_infix_of_find_eq_some h hne, hfields.not_infix⟩
  join := by
    rw [List.intercalate_cons_of_ne_nil hfields.ne_nil, hfields.join, List.append_assoc]
    exact (drop_of_find_eq_some h).symm

/-- The loop ends after at most one turn for each character that is left, and one more. -/
theorem splitLoop_spec (hne : delimiter ≠ []) (hpos : posStart ≤ s.length) :
    ∃ fields, SplitsInto delimiter (s.drop posStart) fields ∧
      ∀ turns res, s.length - posStart < turns →
        splitLoop s delimiter turns posStart res = some (res ++ fields) := by
  induction hleft : s.length - posStart using Nat.strong_induction_on generalizing posStart with
  | h left ih =>
    cases hfind : find s delimiter posStart with
    | none =>
      refine ⟨_, .singleton hfind hpos, fun turns res hturns => ?_⟩
      obtain ⟨turns, rfl⟩ := Nat.exists_eq_add_of_lt (Nat.zero_lt_of_lt hturns)
      rw [Nat.zero_add, splitLoop, hfind]
    | some posEnd =>
      have hroom := length_of_find_eq_some hfind
      have hfrom := (find_eq_some_iff.mp hfind).2.1.1
      have hlength := List.length_pos_iff.mpr hne
      obtain ⟨fields, hfields, hloop⟩ := ih _ (by omega) hroom rfl
      refine ⟨_, .cons hfind hne hfields, fun turns res hturns => ?_⟩
      obtain ⟨turns, rfl⟩ := Nat.exists_eq_add_of_lt (Nat.zero_lt_of_lt hturns)
      rw [Nat.zero_add, splitLoop, hfind]
      simp only
      rw [hloop turns _ (by omega), List.append_assoc, List.singleton_append]

theorem splitString_spec (s : List Char) (hne : delimiter ≠ []) :
    ∃ fields, splitString s delimiter = some fields ∧ SplitsInto delimiter s fields ∧
      ∀ turns, s.length < turns → splitLoop s delimiter turns 0 [] = some fields := by
  obtain ⟨fields, hfields, hloop⟩ := splitLoop_spec hne (Nat.zero_le s.length)
  exact ⟨fields, hloop _ [] (by omega), hfields, fun turns hturns => hloop turns [] hturns⟩

/-- With the empty delimiter the loop does not move on. -/
theorem splitLoop_nil (turns : ℕ) (res : List (List Char)) : splitLoop s [] turns 0 res = none := by
  induction turns generalizing res with
  | zero => rfl
  | succ turns ih =>
    have hfind : find s [] 0 = some 0 := find_eq_some_iff.mpr (by simp)
    rw [splitLoop, hfind]
    exact ih _

theorem splitString_intercalate {c : Char} (hne : fields ≠ []) (hc : ∀ f ∈ fields, c ∉ f) :
    splitString ([c].intercalate fields) [c] = some fields := by
  obtain ⟨fields', hsplit, hfields', -⟩ :=
    splitString_spec ([c].intercalate fields) (List.cons_ne_nil c [])
  have hc' : ∀ f ∈ fields', c ∉ f := fun f hf hmem =>
    hfields'.not_infix f hf ((List.singleton_infix_iff c f).mpr hmem)
  rw [hsplit, ← List.splitOn_intercalate c hc' hfields'.ne_nil, hfields'.join,
    List.splitOn_intercalate c hc hne]

end Split

/-- `std::getline`: a line and what follows it; `none` at the end of the file. -/
def getline : List Char → Option (List Char × List Char)
  | [] => none
  | ifs => some (ifs.takeWhile (· ≠ '\n'), (ifs.dropWhile (· ≠ '\n')).tail)

/-- The milliseconds that the digits after the point count; `none` where `std::stoll` throws. -/
def readMilli (fraction : List Char) : Option ℕ := do
  let milliStr := fraction.take 3
  let multiplier := 10 ^ (3 - milliStr.length)
  let milli := (← stoll (String.ofList milliStr)) * multiplier
  -- a negative one is not a `size_t`
  if milli < 0 then none else some milli.toNat

/-- `none` where an `int64_t` overflows. -/
def addMilliseconds (seconds : ℤ) (milli : ℕ) : Option Milliseconds :=
  let ts := seconds * 1000 + milli
  if -2 ^ 63 ≤ seconds * 1000 ∧ seconds * 1000 < 2 ^ 63 ∧ ts < 2 ^ 63 then some ts else none

/-- The time of a line, written in seconds. -/
def readTs (tsStr : List Char) : Option Milliseconds := do
  let tsSplit ← splitString tsStr ['.']
  let seconds ← stoll (String.ofList (← tsSplit[0]?))
  let milli ← (tsSplit[1]?).elim (some 0) readMilli
  addMilliseconds seconds milli

/-- The trade of a line; `none` where a conversion throws or a field is missing. -/
def readTrade (line : List Char) : Option PublicTrade := do
  let splitStr ← splitString line [',']
  let ts ← readTs (← splitStr[0]?)
  let price ← stod (String.ofList (← splitStr[4]?))
  let side := if (← splitStr[2]?) = ['B', 'u', 'y'] then Side.buy else Side.sell
  let volume ← UnsignedVolume.from? (← stod (String.ofList (← splitStr[3]?)))
  return ⟨ts, price, .ofUnsigned volume side⟩

structure FileReader where
  ifs : List Char
  deriving DecidableEq

namespace FileReader

/-- The next trade, if there is one; `none` where the call throws. -/
def getNext (r : FileReader) : Option (Option PublicTrade × FileReader) :=
  match getline r.ifs with
  | none => some (none, r)
  | some (line, ifs) => (readTrade line).map fun t => (some t, ⟨ifs⟩)

variable {r : FileReader} {line rest : List Char}

theorem getNext_of_getline (h : getline r.ifs = some (line, rest)) :
    r.getNext = (readTrade line).map fun t => (some t, ⟨rest⟩) := by
  rw [getNext, h]

end FileReader

section Timestamp

variable {digits : List Char} (d : DecimalText)

theorem not_mem_of_isDigit (h : ∀ c ∈ digits, c.isDigit) : '.' ∉ digits :=
  fun hmem => absurd (h _ hmem) (by decide)

theorem splitString_timestamp :
    splitString d.text ['.'] =
      some (if d.fraction = [] then [d.whole] else [d.whole, d.fraction]) := by
  have hwhole := not_mem_of_isDigit d.isDigit_whole
  have hfraction := not_mem_of_isDigit d.isDigit_fraction
  rw [DecimalText.text]
  split
  case isTrue =>
    rw [← splitString_intercalate (c := '.') (List.cons_ne_nil _ _) (by simpa using hwhole),
      List.intercalate_singleton]
  case isFalse =>
    rw [← splitString_intercalate (c := '.') (List.cons_ne_nil _ _)
        (by simpa using ⟨hwhole, hfraction⟩),
      List.intercalate_cons_cons, List.intercalate_singleton, List.append_assoc,
      List.singleton_append]

/-- The milliseconds after the point: three digits, with zeros for those that are missing. -/
def milliOf : ℕ := digitsValue (d.fraction.take 3) * 10 ^ (3 - (d.fraction.take 3).length)

theorem readMilli_fraction (h : d.fraction ≠ []) : readMilli d.fraction = some (milliOf d) := by
  have hdigits : ∀ c ∈ d.fraction.take 3, c.isDigit := fun c hc =>
    d.isDigit_fraction c (List.mem_of_mem_take hc)
  have hne : d.fraction.take 3 ≠ [] := by simpa using h
  have hlt : digitsValue (d.fraction.take 3) < 2 ^ 63 :=
    calc digitsValue (d.fraction.take 3)
      _ < 10 ^ (d.fraction.take 3).length := digitsValue_lt hdigits
      _ ≤ 10 ^ 3 := Nat.pow_le_pow_right (by decide) (List.length_take_le _ _)
      _ < 2 ^ 63 := by decide
  have hnonneg : 0 ≤ (digitsValue (d.fraction.take 3) : ℤ) *
      10 ^ (3 - (d.fraction.take 3).length) := by positivity
  rw [readMilli, stoll_of_digits hne hdigits, if_pos hlt, milliOf]
  simp only [Option.bind_eq_bind, Option.bind_some, if_neg (not_lt.mpr hnonneg)]
  norm_cast

theorem floor_value_eq : ⌊1000 * d.value⌋ = digitsValue d.whole * 1000 + milliOf d := by
  have hpow : (1000 : ℚ) = 10 ^ 3 := by norm_num
  rw [hpow, d.floor_value, milliOf]
  norm_num

theorem addMilliseconds_of_nonneg {seconds : ℤ} (h : 0 ≤ seconds) (milli : ℕ) :
    addMilliseconds seconds milli =
      if seconds * 1000 + milli < 2 ^ 63 then some (seconds * 1000 + milli) else none := by
  have hfit : (-2 ^ 63 ≤ seconds * 1000 ∧ seconds * 1000 < 2 ^ 63 ∧
      seconds * 1000 + milli < 2 ^ 63) ↔ seconds * 1000 + milli < 2 ^ 63 := by
    omega
  exact if_congr hfit rfl rfl

theorem readTs_eq_bind :
    readTs d.text =
      (stoll (String.ofList d.whole)).bind fun seconds => addMilliseconds seconds (milliOf d) := by
  rw [readTs, splitString_timestamp]
  split
  case isTrue h =>
    have hmilli : milliOf d = 0 := by simp [milliOf, h]
    rw [hmilli]
    rfl
  case isFalse h =>
    simp only [Option.bind_eq_bind, Option.bind_some, List.getElem?_cons_zero,
      List.getElem?_cons_succ, Option.elim_some, readMilli_fraction d h]

/-- The time of a line is read as its whole milliseconds, if these are an `int64_t`. -/
theorem readTs_text :
    readTs d.text = if ⌊1000 * d.value⌋ < 2 ^ 63 then some ⌊1000 * d.value⌋ else none := by
  rw [readTs_eq_bind, stoll_of_digits d.whole_ne_nil d.isDigit_whole, floor_value_eq]
  by_cases hfit : digitsValue d.whole < 2 ^ 63
  · rw [if_pos hfit, Option.bind_some, addMilliseconds_of_nonneg (Int.natCast_nonneg _)]
  · rw [if_neg hfit, Option.bind_none, if_neg]
    omega

end Timestamp

/-- A line of the exchange's files, of which the first five fields are read. -/
structure TradeLine where
  timestamp : DecimalText
  symbol : List Char
  side : List Char
  size : List Char
  price : List Char
  others : List (List Char)
  no_comma : ∀ f ∈ symbol :: side :: size :: price :: others, ',' ∉ f

namespace TradeLine

variable (l : TradeLine)

def fields : List (List Char) :=
  l.timestamp.text :: l.symbol :: l.side :: l.size :: l.price :: l.others

def text : List Char := [','].intercalate l.fields

def milliseconds : Milliseconds := ⌊1000 * l.timestamp.value⌋

theorem splitString_text : splitString l.text [','] = some l.fields := by
  refine splitString_intercalate (List.cons_ne_nil _ _) ?_
  refine List.forall_mem_cons.mpr ⟨fun hmem => ?_, l.no_comma⟩
  exact absurd (l.timestamp.mem_text hmem) (by decide)

theorem readTrade_text {price size : ℚ} (hts : l.milliseconds < 2 ^ 63)
    (hprice : stod (String.ofList l.price) = some price)
    (hsize : stod (String.ofList l.size) = some size) (hnonneg : 0 ≤ size) :
    readTrade l.text = some ⟨l.milliseconds, price,
      .ofUnsigned ⟨size, hnonneg⟩ (if l.side = ['B', 'u', 'y'] then .buy else .sell)⟩ := by
  have hts : readTs l.timestamp.text = some l.milliseconds := by
    rw [readTs_text, ← milliseconds, if_pos hts]
  have hvolume : UnsignedVolume.from? size = some ⟨size, hnonneg⟩ := by
    rw [UnsignedVolume.from?, dif_neg (not_lt.mpr hnonneg)]
  rw [readTrade, splitString_text]
  simp only [fields, Option.bind_eq_bind, Option.bind_some, List.getElem?_cons_zero,
    List.getElem?_cons_succ, hts, hprice, hsize, hvolume, Option.pure_def]

end TradeLine

namespace FileReader

/-- A line with a number for its price and its size is a trade at its whole milliseconds. The loop
that splits a text ends, however many more turns it may take, and the text is found again. -/
theorem getNext_and_splitString {price size : ℚ} {ifs s delimiter : List Char} (l : TradeLine)
    (r : FileReader) (hline : getline r.ifs = some (l.text, ifs))
    (hprice : stod (String.ofList l.price) = some price)
    (hsize : stod (String.ofList l.size) = some size) (hpos : 0 < size)
    (hts : ⌊1000 * l.timestamp.value⌋ < 2 ^ 63) (hdelimiter : delimiter ≠ []) :
    (∃ t, r.getNext = some (some t, ⟨ifs⟩) ∧ t.ts = ⌊1000 * l.timestamp.value⌋ ∧
        t.price = price ∧ t.volume.unsigned.value = size) ∧
      ∃ fields, splitString s delimiter = some fields ∧
        (∀ turns, s.length < turns → splitLoop s delimiter turns 0 [] = some fields) ∧
        (∀ f ∈ fields, ¬ delimiter <:+: f) ∧ delimiter.intercalate fields = s := by
  constructor
  · have hnext := getNext_of_getline hline
    rw [l.readTrade_text hts hprice hsize hpos.le] at hnext
    exact ⟨_, hnext, rfl, rfl, by rw [SignedVolume.unsigned_ofUnsigned]⟩
  · obtain ⟨fields, hsplit, hfields, hloop⟩ := splitString_spec s hdelimiter
    exact ⟨fields, hsplit, hloop, hfields.not_infix, hfields.join⟩

theorem getNext_and_splitString_half :
    let d : DecimalText := ⟨['7'], ['5'], by decide, by simp, by simp⟩
    let l : TradeLine := ⟨d, ['B'], ['S', 'e', 'l', 'l'], ['2'], ['3'], [], by decide⟩
    (∃ t, (FileReader.mk l.text).getNext = some (some t, ⟨[]⟩) ∧ t.ts = ⌊1000 * d.value⌋ ∧
        t.price = 3 ∧ t.volume.unsigned.value = 2) ∧
      let s := ['a', '-', '-', 'b']
      ∃ fields, splitString s ['-', '-'] = some fields ∧
        (∀ turns, s.length < turns → splitLoop s ['-', '-'] turns 0 [] = some fields) ∧
        (∀ f ∈ fields, ¬ ['-', '-'] <:+: f) ∧ ['-', '-'].intercalate fields = s := by
  intro d l
  exact getNext_and_splitString l (FileReader.mk l.text) (by decide +kernel) (by decide +kernel)
    (by decide +kernel) (by decide) (by decide +kernel) (by decide)

/-- A time of which the seconds are an `int64_t` of milliseconds, and the milliseconds are not. -/
def lateLine : TradeLine where
  timestamp := ⟨"9223372036854775".toList, "999".toList, by decide, by simp, by simp⟩
  symbol := "BTCUSDT".toList
  side := "Buy".toList
  size := "1".toList
  price := "20000.5".toList
  others := []
  no_comma := by decide

theorem getNext_lateLine :
    (1000 * digitsValue lateLine.timestamp.whole : ℤ) < 2 ^ 63 ∧
      stod (String.ofList lateLine.price) = some 20000.5 ∧
      stod (String.ofList lateLine.size) = some 1 ∧
      getline lateLine.text = some (lateLine.text, []) ∧
      (FileReader.mk lateLine.text).getNext = none := by
  refine ⟨?_, ?_, ?_, ?_, ?_⟩ <;> decide +kernel

end FileReader

end CryptoTrading
