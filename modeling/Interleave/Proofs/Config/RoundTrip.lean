import Interleave.Config.Json
import Interleave.Proofs.Except
import Interleave.Proofs.Json.RoundTrip

/-!
A configuration is read from its text as it was, at every limit of its numbers and whatever is set or left
out. A text that describes no valid configuration is refused.
-/

namespace Interleave

namespace JsonPiece

theorem text?_ofText (s : String) : text? (ofText s) = some s := by
  have hchars : ∀ cs : List Char, chars? (cs.map char) = some cs := by
    intro cs
    induction cs with
    | nil => rfl
    | cons c cs ih => rw [List.map_cons, chars?, ih, Option.map_some]
  unfold text? ofText
  rw [hchars, Option.map_some, String.ofList_toList]

theorem isExact_of_mem_ofText {s : String} {p : JsonPiece} (h : p ∈ ofText s) : p.IsExact := by
  obtain ⟨c, -, rfl⟩ := List.mem_map.mp h
  trivial

end JsonPiece

namespace JsonValue

theorem text?_ofText (s : String) : (ofText s).text? = some s := JsonPiece.text?_ofText s

theorem uint64?_toNat (n : UInt64) : (int n.toNat).uint64? = some n := by
  unfold uint64?
  dsimp only
  rw [Int.toNat_natCast, if_pos ⟨Int.natCast_nonneg _, n.toNat_lt⟩]
  simp

theorem int64?_ofInt64 (n : Int64) : (ofInt64 n).int64? = some n := by
  unfold int64? ofInt64
  dsimp only
  rw [if_pos ⟨Int64.minValue_le_toInt n, Int64.toInt_le n⟩, Int64.ofInt_toInt]

theorem limit?_ofLimit (l : Option UInt64) : (ofLimit l).limit? = some l := by
  cases l with
  | none => rfl
  | some n => exact congrArg (Option.map some) (uint64?_toNat n)

theorem isExact_ofText (s : String) : (ofText s).IsExact :=
  .str fun _ => JsonPiece.isExact_of_mem_ofText

theorem isExact_ofLimit (l : Option UInt64) : (ofLimit l).IsExact := by
  cases l with
  | none => exact .null
  | some n => exact .int _

theorem isExact_ofEntries {entries : List (String × JsonValue)} (h : ∀ e ∈ entries, e.2.IsExact) :
    (ofEntries entries).IsExact := by
  apply IsExact.obj
  · intro m hm
    obtain ⟨e, -, rfl⟩ := List.mem_map.mp hm
    exact fun _ => JsonPiece.isExact_of_mem_ofText
  · intro m hm
    obtain ⟨e, he, rfl⟩ := List.mem_map.mp hm
    exact h e he

theorem isExact_section {names : List String} {values : List JsonValue} (h : ∀ v ∈ values, v.IsExact) :
    (ofEntries (names.zip values)).IsExact :=
  isExact_ofEntries fun e he => h e.2 (List.of_mem_zip (a := e.1) (b := e.2) he).2

theorem named?_ofText (entries : List (String × JsonValue)) :
    named? (entries.map fun (name, v) => (JsonPiece.ofText name, v)) = some entries := by
  induction entries with
  | nil => rfl
  | cons e entries ih =>
    unfold named? at ih ⊢
    rw [List.map_cons, List.mapM_cons, ih]
    dsimp only
    rw [JsonPiece.text?_ofText]
    rfl

theorem map_lookup_zip {names : List String} (hnodup : names.Nodup) {values : List JsonValue}
    (hlen : values.length = names.length) :
    names.map (List.lookup · (names.zip values)) = values.map some := by
  induction names generalizing values with
  | nil => rw [List.length_eq_zero_iff.mp hlen, List.map_nil, List.map_nil]
  | cons name names ih =>
    obtain ⟨v, values, rfl⟩ := List.exists_cons_of_length_eq_add_one hlen
    rw [List.nodup_cons] at hnodup
    have hrest := ih hnodup.2 (Nat.succ.inj hlen)
    rw [List.map_cons, List.map_cons, List.zip_cons_cons, List.lookup_cons_self, ← hrest]
    congr 1
    apply List.map_congr_left
    intro other hother
    have hne : (other == name) = false := beq_false_of_ne fun h => hnodup.1 (h ▸ hother)
    rw [List.lookup_cons, hne]

theorem entries?_section {names : List String} (hnodup : names.Nodup) {values : List JsonValue}
    (hlen : values.length = names.length) :
    entries? names (ofEntries (names.zip values)) = some (values.map some) := by
  have hnames : (names.zip values).map (·.1) = names := List.map_fst_zip (Nat.le_of_eq hlen.symm)
  have hknown : names.filter (· ∈ names) = names := by simp
  unfold ofEntries entries?
  dsimp only
  rw [named?_ofText]
  simp only [Option.bind_eq_bind, Option.bind_some]
  rw [hnames, hknown, if_pos hnodup, map_lookup_zip hnodup hlen]
  rfl

end JsonValue

open JsonValue

namespace BreakConfig

theorem isExact_toJson (c : BreakConfig) : c.toJson.IsExact :=
  isExact_section (by simp [IsExact.bool])

theorem ofJson?_toJson (c : BreakConfig) : ofJson? c.toJson = some c := by
  unfold ofJson? toJson
  rw [entries?_section (by decide) rfl]
  simp [bool?, entry?]

end BreakConfig

namespace SchedulerConfig

theorem isExact_toJson (c : SchedulerConfig) : c.toJson.IsExact :=
  isExact_section (by simp [isExact_ofText, IsExact.int])

theorem ofJson?_toJson (c : SchedulerConfig) : ofJson? c.toJson = some c := by
  unfold ofJson? toJson
  rw [entries?_section (by decide) rfl]
  simp [text?_ofText, uint64?_toNat, entry?]

end SchedulerConfig

namespace HeapConfig

theorem isExact_toJson (c : HeapConfig) : c.toJson.IsExact :=
  isExact_section (by simp [isExact_ofLimit])

theorem ofJson?_toJson (c : HeapConfig) : ofJson? c.toJson = some c := by
  unfold ofJson? toJson
  rw [entries?_section (by decide) rfl]
  simp [limit?_ofLimit, entry?]

end HeapConfig

namespace BoxBounds

theorem isExact_toJson (b : BoxBounds) : b.toJson.IsExact :=
  isExact_section (by simp [ofInt64, IsExact.int])

theorem ofJson?_toJson (b : BoxBounds) : ofJson? b.toJson = some b := by
  unfold ofJson? toJson
  rw [entries?_section (by decide) rfl]
  simp [int64?_ofInt64, entry?]

end BoxBounds

namespace SearchConfig

theorem isExact_toJson (c : SearchConfig) : c.toJson.IsExact :=
  isExact_section (by simp [isExact_ofLimit, isExact_ofText, IsExact.bool])

theorem ofJson?_toJson (c : SearchConfig) : ofJson? c.toJson = some c := by
  unfold ofJson? toJson
  rw [entries?_section (by decide) rfl]
  simp [limit?_ofLimit, text?_ofText, bool?, entry?]

end SearchConfig

namespace Config

theorem isExact_toJson (c : Config) : c.toJson.IsExact :=
  isExact_section (by
    simp [IsExact.bool, BreakConfig.isExact_toJson, SchedulerConfig.isExact_toJson,
      HeapConfig.isExact_toJson, BoxBounds.isExact_toJson, SearchConfig.isExact_toJson])

theorem ofJson?_toJson (c : Config) : ofJson? c.toJson = some c := by
  unfold ofJson? toJson
  rw [entries?_section (by decide) rfl]
  simp [bool?, entry?, BreakConfig.ofJson?_toJson, SchedulerConfig.ofJson?_toJson,
    HeapConfig.ofJson?_toJson, BoxBounds.ofJson?_toJson, SearchConfig.ofJson?_toJson]

theorem read?_print (c : Config) : read? c.print = some c := by
  unfold read? print
  rw [JsonReader.read?_print c.isExact_toJson]
  exact c.ofJson?_toJson

theorem parse_eq_ok {text : String} {c : Config} :
    parse text = .ok c ↔ read? text = some c ∧ c.validate = .ok () := by
  unfold parse
  cases read? text with
  | none => simp [throw, throwThe, MonadExceptOf.throw]
  | some d =>
    constructor
    · intro h
      obtain ⟨⟨⟩, hvalid, hreturn⟩ := bind_eq_ok.mp h
      cases hreturn
      exact ⟨rfl, hvalid⟩
    · rintro ⟨hread, hvalid⟩
      cases hread
      exact bind_eq_ok.mpr ⟨(), hvalid, rfl⟩

/-- The text of a configuration is JSON and the configuration is read from it as it was. A valid one is
accepted, and nothing that is not valid is, whatever the text. -/
theorem print_faithful (c : Config) :
    JsonReader.read? c.print = some c.toJson ∧ read? c.print = some c ∧
      (c.validate = .ok () → parse c.print = .ok c) ∧
      ∀ text, parse text = .ok c → c.validate = .ok () :=
  ⟨JsonReader.read?_print c.isExact_toJson, c.read?_print,
    fun hvalid => parse_eq_ok.mpr ⟨c.read?_print, hvalid⟩, fun _ h => (parse_eq_ok.mp h).2⟩

def outermost : Config where
  threads := { start := true, sleep := true }
  breakSingleChoice := true
  scheduler := { policy := PolicyKind.randomized.name, seed := 0xFFFFFFFFFFFFFFFF }
  heap := { maxLiveObjects := some 0 }
  boxes :=
    { byteLow := -0x80, byteHigh := -0x80, charHigh := 0xFFFF, shortLow := 0x7FFF, shortHigh := 0x7FFF
      intLow := -0x80000000, intHigh := 0x7FFFFFFF, longLow := Int64.minValue
      longHigh := Int64.maxValue }
  search :=
    { maxDepth := some 0xFFFFFFFFFFFFFFFF, maxTransitions := some 0, gcAfterTransition := false
      stateTable := Matching.exact.name }

theorem print_faithful_outermost :
    outermost.validate = .ok () ∧ parse outermost.print = .ok outermost :=
  have hvalid : outermost.validate = .ok () := rfl
  ⟨hvalid, outermost.print_faithful.2.2.1 hvalid⟩

end Config

end Interleave
