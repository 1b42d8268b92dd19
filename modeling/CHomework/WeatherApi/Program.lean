import Mathlib.Data.List.Forall2
import CHomework.WeatherApi.Responses
import CHomework.Lib.Utf8

namespace CHomework.WeatherApi

open CHomework.Buffer CHomework.CString CHomework.CJson

theorem zero_notMem_ascii {text : String} (h : 0 ∉ text.toList.map Char.toNat) :
    (0 : UInt8) ∉ ascii text :=
  Utf8.zero_notMem_toUTF8 h

theorem zero_notMem_searchUrl (city : CStr) : (0 : UInt8) ∉ searchUrl city := by
  simp only [searchUrl, locationUrl, List.mem_append, not_or]
  exact ⟨⟨zero_notMem_ascii (by decide), zero_notMem_ascii (by decide)⟩, city.noNul⟩

theorem zero_notMem_weatherUrl (locationId : UInt64) : (0 : UInt8) ∉ weatherUrl locationId := by
  simp only [weatherUrl, locationUrl, List.mem_append, not_or]
  exact ⟨⟨zero_notMem_ascii (by decide), zero_notMem_ascii (Utf8.zero_notMem_repr _)⟩,
    zero_notMem_ascii (by decide)⟩

theorem length_ascii_repr (n : Nat) : (ascii n.repr).length = n.repr.length := by
  have hone : ∀ c ∈ n.repr.toList, (String.utf8EncodeChar c).length = 1 := by
    intro c hc
    rw [Nat.toList_repr] at hc
    have hdigit := Nat.isDigit_of_mem_toDigits (by decide) (by decide) hc
    rw [String.length_utf8EncodeChar, Char.utf8Size_eq_one_iff]
    simp only [Char.isDigit, Bool.and_eq_true, decide_eq_true_eq] at hdigit
    exact UInt32.le_trans hdigit.2 (by decide)
  rw [ascii, Utf8.toList_toUTF8, List.length_flatMap, List.map_congr_left hone, List.map_const']
  simp [Nat.repr]

/-- An identifier has at most 20 digits. -/
theorem length_weatherUrl_le (locationId : UInt64) : (weatherUrl locationId).length ≤ 62 := by
  have hlocation : locationUrl.length = 41 := by decide +kernel
  have hslash : (ascii "/").length = 1 := by decide +kernel
  have hdigits : locationId.toNat.repr.length ≤ 20 :=
    Nat.repr_length _ 20 (by decide) (locationId.toNat_lt.trans (by decide))
  have hrepr : (ascii (toString locationId.toNat)).length = locationId.toNat.repr.length :=
    length_ascii_repr _
  rw [weatherUrl, List.length_append, List.length_append, hlocation, hslash, hrepr]
  omega

/-- A text without a NUL is cut to what fits in the block. -/
theorem apiUrl_eq {text : List UInt8} (h : (0 : UInt8) ∉ text) :
    ∃ url, apiUrl text = some url ∧ url.bytes = text.take 99 := by
  let url : CStr := ⟨text.take 99, fun hmem => h (List.mem_of_mem_take hmem)⟩
  have hlength : (url.bytes ++ [0]).length ≤ urlLen := by
    rw [List.length_append]
    exact Nat.add_le_add_right (List.length_take_le 99 text) 1
  have hblock : storeRange (List.replicate urlLen 0) (text.take (urlLen - 1) ++ [0]) = _ :=
    storeRange_replicate 0 hlength
  refine ⟨url, ?_, rfl⟩
  rw [apiUrl, snprintf, if_neg (by decide), hblock, Option.bind_eq_bind, Option.bind_some]
  exact readString_of_terminated (List.prefix_append _ _)

theorem apiUrl_eq_some_iff {text : List UInt8} {url : CStr} (h : (0 : UInt8) ∉ text) :
    apiUrl text = some url ↔ url.bytes = text.take 99 := by
  obtain ⟨url', heq, hbytes⟩ := apiUrl_eq h
  rw [heq, Option.some.injEq, ← hbytes]
  exact ⟨fun h => congrArg CStr.bytes h.symm, fun h => CStr.ext_bytes h.symm⟩

theorem apiUrl_weatherUrl_eq_some_iff {locationId : UInt64} {url : CStr} :
    apiUrl (weatherUrl locationId) = some url ↔ url.bytes = weatherUrl locationId := by
  rw [apiUrl_eq_some_iff (zero_notMem_weatherUrl locationId),
    List.take_of_length_le ((length_weatherUrl_le locationId).trans (by decide))]

theorem exists_append_zero (bytes : List UInt8) :
    ∃ stray, bytes ++ [0] = (ofBuffer bytes).bytes ++ 0 :: stray := by
  have hsplit : (ofBuffer bytes).bytes ++ bytes.dropWhile (· != 0) = bytes :=
    List.takeWhile_append_dropWhile
  cases hrest : bytes.dropWhile (· != 0) with
  | nil =>
      rw [hrest, List.append_nil] at hsplit
      exact ⟨[], by rw [hsplit]⟩
  | cons byte rest =>
      have hbyte : byte = 0 := by
        simpa [hrest] using List.head_dropWhile_not (· != (0 : UInt8)) (l := bytes) (by simp [hrest])
      refine ⟨rest ++ [0], ?_⟩
      conv_lhs => rw [← hsplit, hrest, hbyte]
      rw [List.append_assoc, List.cons_append]

section Answers

variable {D : Type} (num : Numbers D)

/-- An answer that the parser accepts. -/
structure Answers (exchange : Exchange) (item : Item D) : Prop where
  ok : exchange.error = none
  received : exchange.chunks ≠ []
  parse : parse num (exchange.chunks.flatten ++ [0]) = some (.ok item)

/-- The error report starts inside of the body. -/
theorem parseResponse_cases (chunks : List (List UInt8)) (message : String) :
    (∃ report, parseResponse num (collected chunks) message = some (.error report)) ∨
    ∃ item, parseResponse num (collected chunks) message = some (.ok item) := by
  rcases eq_or_ne chunks [] with rfl | hne
  · exact Or.inl ⟨_, rfl⟩
  obtain ⟨stray, hstray⟩ := exists_append_zero chunks.flatten
  rw [collected, if_neg hne]
  simp only [parseResponse, received, hstray]
  rcases parse_cases num (ofBuffer chunks.flatten) stray with ⟨position, hle, h⟩ | ⟨item, _, _, h⟩
  · have hmem : (0 : UInt8) ∈ ((ofBuffer chunks.flatten).bytes ++ 0 :: stray).drop position := by
      rw [List.drop_append_of_le_length hle]
      exact List.mem_append_right _ List.mem_cons_self
    rw [h]
    simp only [readString, if_pos hmem, Option.bind_eq_bind, Option.bind_some]
    exact Or.inl ⟨_, rfl⟩
  · rw [h]
    exact Or.inr ⟨item, rfl⟩

theorem parseResponse_eq_ok_iff {chunks : List (List UInt8)} (message : String)
    {item : Item D} :
    parseResponse num (collected chunks) message = some (.ok item) ↔
      chunks ≠ [] ∧ parse num (chunks.flatten ++ [0]) = some (.ok item) := by
  rcases eq_or_ne chunks [] with rfl | hne
  · simp [parseResponse, collected]
  rw [collected, if_neg hne]
  simp only [parseResponse, received]
  cases h : parse num (chunks.flatten ++ [0]) with
  | none => simp
  | some result =>
      cases result with
      | ok item => simp [hne]
      | error position =>
          cases hread : readString ((chunks.flatten ++ [0]).drop position) <;> simp [hread]

/-- The value of the first member with this name. -/
def FirstMember (item : Item D) (name : String) (value : Item D) : Prop :=
  ∃ before string after, children item = before ++ (some string, value) :: after ∧
    ofBuffer string = ofBuffer (ascii name) ∧
    ∀ m ∈ before, ∃ other, m.1 = some other ∧ ofBuffer other ≠ ofBuffer (ascii name)

theorem getObjectItemLoop_eq_some_iff {name : CStr} {value : Item D}
    {members : List (Option (List UInt8) × Item D)} :
    getObjectItemLoop name members = some value ↔
      ∃ before string after, members = before ++ (some string, value) :: after ∧
        ofBuffer string = name ∧ ∀ m ∈ before, ∃ other, m.1 = some other ∧ ofBuffer other ≠ name := by
  induction members with
  | nil => simp [getObjectItemLoop]
  | cons m members ih =>
      obtain ⟨_ | string, item⟩ := m
      · simp only [getObjectItemLoop, reduceCtorEq, false_iff]
        rintro ⟨_ | ⟨m, before⟩, string, after, heq, -, hbefore⟩
        · cases (List.cons.inj heq).1
        · obtain ⟨other, hother, -⟩ := hbefore m List.mem_cons_self
          rw [← (List.cons.inj heq).1] at hother
          cases hother
      rw [getObjectItemLoop]
      rcases eq_or_ne name (ofBuffer string) with heq | hne
      · rw [if_neg (not_not_intro ((strcmp_eq_zero_iff ..).mpr heq))]
        constructor
        · rintro ⟨⟩
          exact ⟨[], string, members, rfl, heq.symm, List.forall_mem_nil _⟩
        · rintro ⟨_ | ⟨m, before⟩, other, after, hmembers, -, hbefore⟩
          · rw [List.nil_append, List.cons.injEq, Prod.mk.injEq] at hmembers
            rw [hmembers.1.2]
          · obtain ⟨other, hother, hne⟩ := hbefore m List.mem_cons_self
            rw [← (List.cons.inj hmembers).1, Option.some.injEq] at hother
            exact absurd (hother ▸ heq.symm) hne
      · rw [if_pos (fun h => hne ((strcmp_eq_zero_iff ..).mp h)), ih]
        constructor
        · rintro ⟨before, other, after, rfl, hother, hbefore⟩
          exact ⟨(some string, item) :: before, other, after, rfl, hother,
            List.forall_mem_cons.mpr ⟨⟨string, rfl, hne.symm⟩, hbefore⟩⟩
        · rintro ⟨_ | ⟨m, before⟩, other, after, hmembers, hother, hbefore⟩
          · rw [List.nil_append, List.cons.injEq, Prod.mk.injEq, Option.some.injEq] at hmembers
            exact absurd (hmembers.1.1 ▸ hother.symm) hne
          · exact ⟨before, other, after, (List.cons.inj hmembers).2, hother,
              (List.forall_mem_cons.mp hbefore).2⟩

theorem getObjectItemCaseSensitive_eq_some_iff {item value : Item D} {name : String} :
    getObjectItemCaseSensitive item (ofBuffer (ascii name)) = some value ↔
      FirstMember item name value :=
  getObjectItemLoop_eq_some_iff

/-- The items of an answer that names the location: a number in each of them, and the
last number, which is not 0, is taken. -/
def Names (cities : Item D) (locationId : UInt64) : Prop :=
  ∃ woeids : List (Number D),
    List.Forall₂ (fun location woeid => FirstMember location "woeid" (.number woeid))
      ((children cities).map Prod.snd) woeids ∧
    woeids.getLast?.map (fun woeid => toSize woeid.valueint) = some locationId ∧ locationId ≠ 0

theorem locationLoop_eq_ok_iff {items : List (Item D)} {start locationId : UInt64} :
    locationLoop items start = .ok locationId ↔
      ∃ woeids : List (Number D),
        List.Forall₂ (fun location woeid => FirstMember location "woeid" (.number woeid))
          items woeids ∧
        locationId = (woeids.getLast?.map fun woeid => toSize woeid.valueint).getD start := by
  induction items generalizing start with
  | nil => simp [locationLoop, eq_comm]
  | cons location items ih =>
      -- the identifier of this item is what the rest of the loop starts with
      have hlast : ∀ (woeid : Number D) woeids,
          (((woeid :: woeids).getLast?).map fun woeid => toSize woeid.valueint).getD start =
            (woeids.getLast?.map fun woeid => toSize woeid.valueint).getD (toSize woeid.valueint) := by
        intro woeid woeids
        rw [List.getLast?_cons]
        cases woeids.getLast? <;> rfl
      have hcons : (∃ woeids : List (Number D),
          List.Forall₂ (fun location woeid => FirstMember location "woeid" (.number woeid))
            (location :: items) woeids ∧
          locationId = (woeids.getLast?.map fun woeid => toSize woeid.valueint).getD start) ↔
          ∃ woeid, FirstMember location "woeid" (.number woeid) ∧
            locationLoop items (toSize woeid.valueint) = .ok locationId := by
        simp only [List.forall₂_cons_left_iff, ih]
        constructor
        · rintro ⟨_, ⟨woeid, woeids, hwoeid, hitems, rfl⟩, heq⟩
          exact ⟨woeid, hwoeid, woeids, hitems, heq.trans (hlast woeid woeids)⟩
        · rintro ⟨woeid, hwoeid, woeids, hitems, heq⟩
          exact ⟨_, ⟨woeid, woeids, hwoeid, hitems, rfl⟩, heq.trans (hlast woeid woeids).symm⟩
      rw [hcons]
      simp only [← getObjectItemCaseSensitive_eq_some_iff]
      rw [locationLoop]
      split
      · rename_i woeid hwoeid
        simp [hwoeid]
      · rename_i hother
        simp only [reduceCtorEq, false_iff]
        rintro ⟨woeid, hwoeid, -⟩
        exact hother woeid hwoeid

theorem extractWoeid_of_parseResponse {response : Response} {cityJson : Item D}
    (h : parseResponse num response "Error before: " = some (.ok cityJson)) :
    extractWoeid num response =
      some (match locationLoop ((children cityJson).map Prod.snd) 0 with
        | .error report => .error report
        | .ok locationId =>
            if locationId = 0 then .error (ascii "Valid location was not found")
            else .ok locationId) := by
  rw [extractWoeid, h, Option.bind_eq_bind, Option.bind_some]
  simp only [pure]
  cases locationLoop ((children cityJson).map Prod.snd) 0 <;> rfl

theorem extractWoeid_cases (chunks : List (List UInt8)) :
    (∃ report, extractWoeid num (collected chunks) = some (.error report)) ∨
    ∃ locationId ≠ 0, extractWoeid num (collected chunks) = some (.ok locationId) := by
  rcases parseResponse_cases num chunks "Error before: " with ⟨report, h⟩ | ⟨cityJson, h⟩
  · exact Or.inl ⟨report, by rw [extractWoeid, h]; rfl⟩
  rw [extractWoeid_of_parseResponse num h]
  cases locationLoop ((children cityJson).map Prod.snd) 0 with
  | error report => exact Or.inl ⟨report, rfl⟩
  | ok locationId =>
      rcases eq_or_ne locationId 0 with hzero | hne
      · exact Or.inl ⟨_, congrArg some (if_pos hzero)⟩
      · exact Or.inr ⟨locationId, hne, congrArg some (if_neg hne)⟩

theorem names_iff {cities : Item D} {locationId : UInt64} :
    Names cities locationId ↔
      locationLoop ((children cities).map Prod.snd) 0 = .ok locationId ∧ locationId ≠ 0 := by
  rw [locationLoop_eq_ok_iff, Names]
  constructor
  · rintro ⟨woeids, hitems, hlast, hne⟩
    exact ⟨⟨woeids, hitems, by rw [hlast]; rfl⟩, hne⟩
  · rintro ⟨⟨woeids, hitems, heq⟩, hne⟩
    refine ⟨woeids, hitems, ?_, hne⟩
    cases hlast : woeids.getLast? with
    | none => exact absurd (by rw [heq, hlast]; rfl) hne
    | some woeid => rw [heq, hlast]; rfl

theorem extractWoeid_eq_ok_iff {chunks : List (List UInt8)} {locationId : UInt64} :
    extractWoeid num (collected chunks) = some (.ok locationId) ↔
      chunks ≠ [] ∧ ∃ cities, parse num (chunks.flatten ++ [0]) = some (.ok cities) ∧
        Names cities locationId := by
  rw [← exists_and_left]
  simp only [← and_assoc, ← parseResponse_eq_ok_iff num "Error before: ", names_iff]
  constructor
  · intro h
    rcases parseResponse_cases num chunks "Error before: " with
      ⟨report, hparse⟩ | ⟨cityJson, hparse⟩
    · rw [extractWoeid, hparse] at h
      cases h
    rw [extractWoeid_of_parseResponse num hparse, Option.some.injEq] at h
    split at h
    · cases h
    · rename_i loopId hloop
      split at h
      · cases h
      · rename_i hne
        cases h
        exact ⟨cityJson, ⟨hparse, hloop⟩, hne⟩
  · rintro ⟨cityJson, ⟨hparse, hloop⟩, hne⟩
    rw [extractWoeid_of_parseResponse num hparse, hloop]
    exact congrArg some (if_neg hne)

/-- The weather of a day. -/
structure Weather (D : Type) where
  state : List UInt8
  compass : List UInt8
  windDirection : D
  windSpeed : D
  minTemp : D
  maxTemp : D

/-- The member is a string, with this text in front of its first NUL. -/
def HasText (item : Item D) (name : String) (text : List UInt8) : Prop :=
  ∃ string, FirstMember item name (.string string) ∧ text = (ofBuffer string).bytes

def HasDouble (item : Item D) (name : String) (double : D) : Prop :=
  ∃ x, FirstMember item name (.number x) ∧ double = x.valuedouble

structure HasWeather (today : Item D) (weather : Weather D) : Prop where
  state : HasText today "weather_state_name" weather.state
  compass : HasText today "wind_direction_compass" weather.compass
  windDirection : HasDouble today "wind_direction" weather.windDirection
  windSpeed : HasDouble today "wind_speed" weather.windSpeed
  minTemp : HasDouble today "min_temp" weather.minTemp
  maxTemp : HasDouble today "max_temp" weather.maxTemp

/-- The weather that the first item of the forecast has. -/
def Tells (weatherInfo : Item D) (weather : Weather D) : Prop :=
  ∃ days today, FirstMember weatherInfo "consolidated_weather" days ∧
    (children days).head?.map Prod.snd = some today ∧ HasWeather today weather

theorem stringOf_eq_ok_iff {item : Item D} {name report : String} {text : List UInt8} :
    stringOf (getObjectItemCaseSensitive item (ofBuffer (ascii name))) report = .ok text ↔
      HasText item name text := by
  simp only [HasText, ← getObjectItemCaseSensitive_eq_some_iff]
  unfold stringOf
  split
  · rename_i string hstring
    simp [hstring, eq_comm]
  · rename_i hother
    simp only [reduceCtorEq, false_iff]
    rintro ⟨string, hstring, -⟩
    exact hother string hstring

theorem numberOf_eq_ok_iff {item : Item D} {name report : String} {double : D} :
    numberOf (getObjectItemCaseSensitive item (ofBuffer (ascii name))) report = .ok double ↔
      HasDouble item name double := by
  simp only [HasDouble, ← getObjectItemCaseSensitive_eq_some_iff]
  unfold numberOf
  split
  · rename_i x hx
    simp [hx, eq_comm]
  · rename_i hother
    simp only [reduceCtorEq, false_iff]
    rintro ⟨x, hx, -⟩
    exact hother x hx

theorem andThen_eq_ok_iff {α : Type} {value : Attempt α} {next : α → Printed}
    {text : List UInt8} :
    andThen value next = { stdout := text, result := .ok () } ↔
      ∃ a, value = .ok a ∧ next a = { stdout := text, result := .ok () } := by
  cases value with
  | error report => simp [andThen]
  | ok a => simp [andThen]

theorem append_eq_ok_iff {text whole : List UInt8} {printed : Printed} :
    printed.append text = { stdout := whole, result := .ok () } ↔
      ∃ rest, printed = { stdout := rest, result := .ok () } ∧ whole = text ++ rest := by
  cases printed
  simp only [Printed.append, Printed.mk.injEq]
  constructor
  · rintro ⟨rfl, rfl⟩
    exact ⟨_, ⟨rfl, rfl⟩, rfl⟩
  · rintro ⟨rest, ⟨rfl, rfl⟩, rfl⟩
    exact ⟨rfl, rfl⟩

variable (showDouble : D → List UInt8)

def Weather.lines (weather : Weather D) : List UInt8 :=
  stateLine weather.state ++
    (windLine showDouble weather.compass weather.windDirection weather.windSpeed ++
      temperatureLine showDouble weather.minTemp weather.maxTemp)

theorem printDay_eq_ok_iff {today : Item D} {text : List UInt8} :
    printDay showDouble today = { stdout := text, result := .ok () } ↔
      ∃ weather, HasWeather today weather ∧ text = weather.lines showDouble := by
  simp only [printDay, andThen_eq_ok_iff, append_eq_ok_iff, stringOf_eq_ok_iff,
    numberOf_eq_ok_iff, Printed.mk.injEq, and_true]
  constructor
  · rintro ⟨state, hstate, _, ⟨compass, hcompass, windDirection, hdirection, windSpeed, hspeed,
      _, ⟨minTemp, hmin, maxTemp, hmax, rfl⟩, rfl⟩, rfl⟩
    exact ⟨⟨state, compass, windDirection, windSpeed, minTemp, maxTemp⟩,
      ⟨hstate, hcompass, hdirection, hspeed, hmin, hmax⟩, rfl⟩
  · rintro ⟨weather, h, rfl⟩
    exact ⟨_, h.state, _, ⟨_, h.compass, _, h.windDirection, _, h.windSpeed,
      _, ⟨_, h.minTemp, _, h.maxTemp, rfl⟩, rfl⟩, rfl⟩

theorem printWeatherToday_of_parseResponse {response : Response} {weatherInfo : Item D}
    (h : parseResponse num response "Request parse err: " = some (.ok weatherInfo)) :
    printWeatherToday num showDouble response =
      some (match getObjectItemCaseSensitive weatherInfo
          (ofBuffer (ascii "consolidated_weather")) with
        | none => { stdout := [], result := .error [] }
        | some weather =>
            match (children weather).head?.map Prod.snd with
            | none => { stdout := [], result := .error [] }
            | some weatherToday => printDay showDouble weatherToday) := by
  rw [printWeatherToday, h, Option.bind_eq_bind, Option.bind_some]
  simp only [getArrayItem, ← List.head?_eq_getElem?]
  cases getObjectItemCaseSensitive weatherInfo (ofBuffer (ascii "consolidated_weather")) with
  | none => rfl
  | some weather =>
      dsimp only
      cases (children weather).head? <;> rfl

theorem printWeatherToday_cases (chunks : List (List UInt8)) :
    ∃ printed, printWeatherToday num showDouble (collected chunks) = some printed := by
  rcases parseResponse_cases num chunks "Request parse err: " with ⟨report, h⟩ | ⟨weatherInfo, h⟩
  · exact ⟨_, by rw [printWeatherToday, h]; rfl⟩
  · exact ⟨_, printWeatherToday_of_parseResponse num showDouble h⟩

theorem printWeatherToday_eq_ok_iff {chunks : List (List UInt8)} {text : List UInt8} :
    printWeatherToday num showDouble (collected chunks) =
        some { stdout := text, result := .ok () } ↔
      chunks ≠ [] ∧ ∃ weatherInfo, parse num (chunks.flatten ++ [0]) = some (.ok weatherInfo) ∧
        ∃ weather, Tells weatherInfo weather ∧ text = weather.lines showDouble := by
  have hok : (chunks ≠ [] ∧ ∃ weatherInfo,
      parse num (chunks.flatten ++ [0]) = some (.ok weatherInfo) ∧
        ∃ weather, Tells weatherInfo weather ∧ text = weather.lines showDouble) ↔
      ∃ weatherInfo, parseResponse num (collected chunks) "Request parse err: " =
          some (.ok weatherInfo) ∧
        ∃ weather, Tells weatherInfo weather ∧ text = weather.lines showDouble := by
    simp only [parseResponse_eq_ok_iff]
    constructor
    · rintro ⟨hne, weatherInfo, h, hrest⟩
      exact ⟨weatherInfo, ⟨hne, h⟩, hrest⟩
    · rintro ⟨weatherInfo, ⟨hne, h⟩, hrest⟩
      exact ⟨hne, weatherInfo, h, hrest⟩
  rw [hok]
  constructor
  · intro h
    rcases parseResponse_cases num chunks "Request parse err: " with
      ⟨report, hparse⟩ | ⟨weatherInfo, hparse⟩
    · rw [printWeatherToday, hparse] at h
      cases h
    rw [printWeatherToday_of_parseResponse num showDouble hparse, Option.some.injEq] at h
    split at h
    · cases h
    rename_i days hdays
    split at h
    · cases h
    rename_i today htoday
    obtain ⟨weather, hweather, htext⟩ := (printDay_eq_ok_iff showDouble).mp h
    exact ⟨weatherInfo, hparse, weather,
      ⟨days, today, getObjectItemCaseSensitive_eq_some_iff.mp hdays, htoday, hweather⟩, htext⟩
  · rintro ⟨weatherInfo, hparse, weather, ⟨days, today, hdays, htoday, hweather⟩, htext⟩
    rw [printWeatherToday_of_parseResponse num showDouble hparse,
      getObjectItemCaseSensitive_eq_some_iff.mpr hdays]
    simp only [htoday, Option.some.injEq]
    exact (printDay_eq_ok_iff showDouble).mpr ⟨weather, hweather, htext⟩

end Answers

section Main

variable {D : Type} (num : Numbers D) (showDouble : D → List UInt8)

/-- What the program may have requested: nothing, the search of the city, and the weather
of a location after it. The first URL is cut to 99 bytes. -/
inductive Requested (argv : List CStr) : List CStr → Prop where
  | nothing : Requested argv []
  | search {city searchFor : CStr} (hcity : argv[1]? = some city)
      (hsearch : searchFor.bytes = (searchUrl city).take 99) : Requested argv [searchFor]
  | weather {city searchFor weatherOf : CStr} {locationId : UInt64}
      (hcity : argv[1]? = some city) (hsearch : searchFor.bytes = (searchUrl city).take 99)
      (hlocation : locationId ≠ 0) (hweather : weatherOf.bytes = weatherUrl locationId) :
      Requested argv [searchFor, weatherOf]

/-- The server tells a location of the city and then its weather, which is printed. -/
def Prints (argv : List CStr) (curl : Bool) (perform : CStr → Exchange × (CStr → Exchange))
    (exit : Exit) : Prop :=
  curl = true ∧ ∃ city searchFor weatherOf cities locationId weatherInfo weather,
    argv[1]? = some city ∧ searchFor.bytes = (searchUrl city).take 99 ∧
    Answers num (perform searchFor).1 cities ∧ Names cities locationId ∧
    weatherOf.bytes = weatherUrl locationId ∧
    Answers num ((perform searchFor).2 weatherOf) weatherInfo ∧ Tells weatherInfo weather ∧
    exit = success [searchFor, weatherOf] (weather.lines showDouble)

theorem main_of_prints {argv : List CStr} {curl : Bool}
    {perform : CStr → Exchange × (CStr → Exchange)} {exit : Exit}
    (h : Prints num showDouble argv curl perform exit) :
    main num showDouble argv curl perform = some exit := by
  obtain ⟨rfl, city, searchFor, weatherOf, cities, locationId, weatherInfo, weather, hcity,
    hsearch, hcities, hnames, hweather, hinfo, htells, rfl⟩ := h
  have hfirst := (apiUrl_eq_some_iff (zero_notMem_searchUrl city)).mpr hsearch
  have hsecond := apiUrl_weatherUrl_eq_some_iff.mpr hweather
  have hextract := (extractWoeid_eq_ok_iff num).mpr
    ⟨hcities.received, cities, hcities.parse, hnames⟩
  have hprint := (printWeatherToday_eq_ok_iff num showDouble).mpr
    ⟨hinfo.received, weatherInfo, hinfo.parse, weather, htells, rfl⟩
  simp only [main, hcity, hfirst, Option.bind_eq_bind, Option.bind_some, Bool.true_eq_false,
    if_false, request_eq, hcities.ok, hextract, hsecond, hinfo.ok, hprint]
  rfl

theorem main_ends (argv : List CStr) (curl : Bool)
    (perform : CStr → Exchange × (CStr → Exchange)) :
    ∃ exit, main num showDouble argv curl perform = some exit ∧ Requested argv exit.requests ∧
      (exit.status = 1 ∨ Prints num showDouble argv curl perform exit) := by
  rw [main]
  cases hcity : argv[1]? with
  | none => exact ⟨_, rfl, .nothing, Or.inl rfl⟩
  | some city =>
      obtain ⟨searchFor, hfirst, hsearch⟩ := apiUrl_eq (zero_notMem_searchUrl city)
      simp only [hfirst, Option.bind_eq_bind, Option.bind_some]
      cases hcurl : curl with
      | false => exact ⟨_, rfl, .nothing, Or.inl rfl⟩
      | true =>
          simp only [Bool.true_eq_false, if_false, request_eq]
          cases hok : (perform searchFor).1.error with
          | some text => exact ⟨_, rfl, .search hcity hsearch, Or.inl rfl⟩
          | none =>
              simp only [Option.bind_some]
              rcases extractWoeid_cases num (perform searchFor).1.chunks with
                ⟨report, hextract⟩ | ⟨locationId, hne, hextract⟩
              · rw [hextract]
                exact ⟨_, rfl, .search hcity hsearch, Or.inl rfl⟩
              rw [hextract]
              simp only [Option.bind_some]
              obtain ⟨weatherOf, hsecond, -⟩ := apiUrl_eq (zero_notMem_weatherUrl locationId)
              have hweather := apiUrl_weatherUrl_eq_some_iff.mp hsecond
              rw [hsecond, Option.bind_some]
              cases hinfo : ((perform searchFor).2 weatherOf).error with
              | some text => exact ⟨_, rfl, .weather hcity hsearch hne hweather, Or.inl rfl⟩
              | none =>
                  simp only [Option.bind_some]
                  obtain ⟨⟨stdout, result⟩, hprint⟩ := printWeatherToday_cases num showDouble
                    ((perform searchFor).2 weatherOf).chunks
                  rw [hprint, Option.bind_some]
                  cases result with
                  | error report =>
                      exact ⟨_, rfl, .weather hcity hsearch hne hweather, Or.inl rfl⟩
                  | ok =>
                      obtain ⟨hfirst, cities, hcities, hnames⟩ :=
                        (extractWoeid_eq_ok_iff num).mp hextract
                      obtain ⟨hinfos, weatherInfo, hparse, weather, htells, rfl⟩ :=
                        (printWeatherToday_eq_ok_iff num showDouble).mp hprint
                      exact ⟨_, rfl, .weather hcity hsearch hne hweather, Or.inr ⟨rfl, city,
                        searchFor, weatherOf, cities, locationId, weatherInfo, weather, hcity,
                        hsearch, ⟨hok, hfirst, hcities⟩, hnames, hweather,
                        ⟨hinfo, hinfos, hparse⟩, htells, rfl⟩⟩

/-- The program comes to its end for any arguments and any answers, which it reads inside
of their blocks. The allocations succeed. -/
theorem main_cases (argv : List CStr) (curl : Bool)
    (perform : CStr → Exchange × (CStr → Exchange)) :
    ∃ exit, main num showDouble argv curl perform = some exit ∧
      Requested argv exit.requests ∧ exit.status ≤ 1 := by
  obtain ⟨exit, hmain, hrequested, hstatus | ⟨-, _, _, _, _, _, _, _, -, -, -, -, -, -, -, rfl⟩⟩ :=
    main_ends num showDouble argv curl perform
  · exact ⟨exit, hmain, hrequested, hstatus.le⟩
  · exact ⟨_, hmain, hrequested, Nat.zero_le _⟩

/-- The program succeeds exactly if the server tells a location of the city and then its
weather, which it prints. -/
theorem main_success_iff {argv : List CStr} {curl : Bool}
    {perform : CStr → Exchange × (CStr → Exchange)} {exit : Exit} :
    main num showDouble argv curl perform = some exit ∧ exit.status = 0 ↔
      Prints num showDouble argv curl perform exit := by
  constructor
  · rintro ⟨hmain, hstatus⟩
    obtain ⟨exit', hmain', -, hstatus' | hprints⟩ := main_ends num showDouble argv curl perform
    · rw [hmain, Option.some.injEq] at hmain'
      rw [← hmain', hstatus] at hstatus'
      cases hstatus'
    · rw [hmain, Option.some.injEq] at hmain'
      exact hmain' ▸ hprints
  · intro hprints
    refine ⟨main_of_prints num showDouble hprints, ?_⟩
    obtain ⟨-, _, _, _, _, _, _, _, -, -, -, -, -, -, -, rfl⟩ := hprints
    rfl

end Main

end CHomework.WeatherApi
