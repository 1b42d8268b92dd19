import CHomework.CJson.Model

/-!
The weather client `main.c`: it looks a city up, and prints the weather of its location.
-/

namespace CHomework.WeatherApi

open CHomework.Buffer CHomework.CString CHomework.CJson

def ascii (text : String) : List UInt8 := text.toUTF8.toList

def locationUrl : List UInt8 := ascii "https://www.metaweather.com/api/location/"

def urlLen : Nat := 100

/-- `body` is `NULL` in the beginning. -/
structure Response where
  body : Option (List UInt8)
  size : Nat

/-- `memcpy` into a block from this index on. -/
def memcpy (block : List UInt8) (i : Nat) (data : List UInt8) : Option (List UInt8) :=
  if i + data.length ≤ block.length then some (overwrite block i data) else none

/-- The callback, with the data of `size * nmemb` bytes. It returns their number. Its
`realloc` succeeds, and the cell `i` that it adds to the body holds `stray i`. -/
def responseHandler (stray : Nat → UInt8) (data : List UInt8) (response : Response) :
    Option (Nat × Response) := do
  let chuckLen := data.length
  let body := reallocStray stray (response.size + chuckLen + 1) (response.body.getD [])
  let body ← memcpy body response.size data
  let size := response.size + chuckLen
  let body ← store body size 0
  return (chuckLen, { body := some body, size })

/-- A transfer gives its chunks to the callback. It is ended by a callback that returns
less than it was given. -/
def transfer (stray : Nat → UInt8) : List (List UInt8) → Response → Option Response
  | [], response => some response
  | data :: chunks, response => do
      let (taken, response) ← responseHandler stray data response
      if taken = data.length then transfer stray chunks response else return response

/-- What a function returns, or what is on `stderr` when it calls `exit(EXIT_FAILURE)`. -/
abbrev Attempt (α : Type) := Except (List UInt8) α

section Answers

variable {D : Type} (num : Numbers D)

/-- The items of a response, and the error report where there are none. The error of the
library is not set before its parser has failed once. -/
def parseResponse (response : Response) (message : String) : Option (Attempt (Item D)) :=
  match response.body with
  | none => some (.error [])
  | some body => do
      match ← parse num body with
      | .ok item => return .ok item
      | .error position => do
          let errorPtr ← readString (body.drop position)
          return .error (ascii message ++ errorPtr.bytes ++ ascii "\n")

/-- A negative `valueint` wraps around. -/
def toSize (valueint : Int32) : UInt64 := valueint.toInt64.toUInt64

def locationLoop : List (Item D) → UInt64 → Attempt UInt64
  | [], locationId => .ok locationId
  | location :: rest, _ =>
      match getObjectItemCaseSensitive location (ofBuffer (ascii "woeid")) with
      | some (.number woeid) => locationLoop rest (toSize woeid.valueint)
      | _ => .error (ascii "Invalid woeid value")

def extractWoeid (response : Response) : Option (Attempt UInt64) := do
  match ← parseResponse num response "Error before: " with
  | .error report => return .error report
  | .ok cityJson =>
      return do
        let locationId ← locationLoop ((children cityJson).map Prod.snd) 0
        if locationId = 0 then .error (ascii "Valid location was not found") else .ok locationId

structure Printed where
  stdout : List UInt8
  result : Attempt Unit

def Printed.append (text : List UInt8) (printed : Printed) : Printed :=
  { printed with stdout := text ++ printed.stdout }

def stringOf (item : Option (Item D)) (report : String) : Attempt (List UInt8) :=
  match item with
  | some (.string valuestring) => .ok (ofBuffer valuestring).bytes
  | _ => .error (ascii report)

def numberOf (item : Option (Item D)) (report : String) : Attempt D :=
  match item with
  | some (.number x) => .ok x.valuedouble
  | _ => .error (ascii report)

/-- The lines of `print_weather_today`. `showDouble` is the conversion `%f`. -/
def stateLine (state : List UInt8) : List UInt8 :=
  ascii "Weather state name: " ++ state ++ ascii "\n"

variable (showDouble : D → List UInt8)

def windLine (compass : List UInt8) (direction speed : D) : List UInt8 :=
  ascii "Wind: " ++ compass ++ ascii "(" ++ showDouble direction ++ ascii ") speed " ++
    showDouble speed ++ ascii "\n"

def temperatureLine (minTemp maxTemp : D) : List UInt8 :=
  ascii "Temperature: " ++ showDouble minTemp ++ ascii " ... " ++ showDouble maxTemp ++ ascii "\n"

def andThen {α : Type} (value : Attempt α) (next : α → Printed) : Printed :=
  match value with
  | .error report => { stdout := [], result := .error report }
  | .ok a => next a

/-- The part of `print_weather_today` behind the lookup of the day. -/
def printDay (weatherToday : Item D) : Printed :=
  let get (name : String) := getObjectItemCaseSensitive weatherToday (ofBuffer (ascii name))
  andThen (stringOf (get "weather_state_name") "Invalid weather_state value") fun state =>
  Printed.append (stateLine state) <|
  andThen (stringOf (get "wind_direction_compass") "Invalid wind_direction_compass value")
    fun compass =>
  andThen (numberOf (get "wind_direction") "Invalid wind_direction value") fun direction =>
  andThen (numberOf (get "wind_speed") "Invalid wind_speed value") fun speed =>
  Printed.append (windLine showDouble compass direction speed) <|
  andThen (numberOf (get "min_temp") "Invalid min_temp value") fun minTemp =>
  andThen (numberOf (get "max_temp") "Invalid max_temp value") fun maxTemp =>
  { stdout := temperatureLine showDouble minTemp maxTemp, result := .ok () }

/-- The parser has reset its error when a section is missing, so nothing is reported. -/
def printWeatherToday (response : Response) : Option Printed := do
  match ← parseResponse num response "Request parse err: " with
  | .error report => return { stdout := [], result := .error report }
  | .ok weatherInfo =>
      match getObjectItemCaseSensitive weatherInfo (ofBuffer (ascii "consolidated_weather")) with
      | none => return { stdout := [], result := .error [] }
      | some weather =>
          match getArrayItem weather 0 with
          | none => return { stdout := [], result := .error [] }
          | some weatherToday => return printDay showDouble weatherToday

end Answers

/-- `snprintf` of this text into a block of which it may use `n` bytes, one of them for the
terminator. -/
def snprintf (block : List UInt8) (n : Nat) (text : List UInt8) : Option (List UInt8) :=
  if n = 0 then some block else storeRange block (text.take (n - 1) ++ [0])

def searchUrl (city : CStr) : List UInt8 := locationUrl ++ ascii "search/?query=" ++ city.bytes

def weatherUrl (locationId : UInt64) : List UInt8 :=
  locationUrl ++ ascii (toString locationId.toNat) ++ ascii "/"

/-- The URL that is left of a text in the block at `api_url`, which holds zeros. -/
def apiUrl (text : List UInt8) : Option CStr := do
  let block ← snprintf (List.replicate urlLen 0) urlLen text
  readString block

/-- What `curl_easy_perform` does: the chunks that it gives to the callback, and the text
of its error if it fails. `stray` is what the memory of the body holds before. -/
structure Exchange where
  chunks : List (List UInt8)
  error : Option (List UInt8)
  stray : Nat → UInt8

structure Exit where
  requests : List CStr
  stdout : List UInt8
  stderr : List UInt8
  status : Nat

def failure (requests : List CStr) (stdout stderr : List UInt8) : Exit :=
  { requests, stdout, stderr, status := 1 }

def success (requests : List CStr) (stdout : List UInt8) : Exit :=
  { requests, stdout, stderr := [], status := 0 }

def request (exchange : Exchange) : Option (Attempt Response) := do
  let response ← transfer exchange.stray exchange.chunks { body := none, size := 0 }
  match exchange.error with
  | some text => return .error (ascii "request failed: " ++ text ++ ascii "\n")
  | none => return .ok response

section Main

variable {D : Type} (num : Numbers D) (showDouble : D → List UInt8)

/-- `perform` is what becomes of the first request and of the second one. -/
def main (argv : List CStr) (curl : Bool) (perform : CStr → Exchange × (CStr → Exchange)) :
    Option Exit :=
  match argv[1]? with
  | none => some (failure [] [] (ascii "city is not set\n"))
  | some city => do
      let searchFor ← apiUrl (searchUrl city)
      if curl = false then return failure [] (ascii "curl init error") []
      match ← request (perform searchFor).1 with
      | .error report => return failure [searchFor] [] report
      | .ok response => do
          match ← extractWoeid num response with
          | .error report => return failure [searchFor] [] report
          | .ok locationId => do
              let weatherOf ← apiUrl (weatherUrl locationId)
              match ← request ((perform searchFor).2 weatherOf) with
              | .error report => return failure [searchFor, weatherOf] [] report
              | .ok response => do
                  let printed ← printWeatherToday num showDouble response
                  match printed.result with
                  | .error report =>
                      return failure [searchFor, weatherOf] printed.stdout report
                  | .ok () =>
                      return success [searchFor, weatherOf] printed.stdout

end Main

end CHomework.WeatherApi
