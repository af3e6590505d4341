import OpenLoops.Graph.Fetch

/-!
# Listing mail

The newest messages of a folder are listed page by page, until one is older than a cutoff, enough
are listed, or the pages come to an end; what goes wrong on the way is recorded.  Labels of Gmail
are listed in a similar way.
-/

namespace Graph

variable {Url : Type} (W : Web Url)

def fetch (token : String) (url : Url) : Call Url Bytes :=
  fetchFromOrigin W token url graphOrigin

/-! ### Windows of folders -/

/-- The date of a row, when it has one that can be read. -/
def timestampOf (dateField : String) (row : Json) : Option ℤ :=
  (textBy String.utf8ByteSize row dateField 64).toOption.bind W.parseRfc3339

/-- The rows that are kept, whether a row is older than the cutoff, and how many are skipped: those
before are kept and skipped already. -/
def windowFrom (dateField : String) (cutoff : ℤ) (cap : ℕ) :
    List Json → List Json → ℕ → List Json × Bool × ℕ
  | [], kept, skipped => (kept, false, skipped)
  | row :: rows, kept, skipped =>
      if cap ≤ kept.length then (kept, false, skipped)
      else
        match timestampOf W dateField row with
        | some timestamp =>
            if timestamp < cutoff then (kept, true, skipped)
            else windowFrom dateField cutoff cap rows (kept ++ [row]) skipped
        | none => windowFrom dateField cutoff cap rows kept (skipped + 1)

def window (rows : List Json) (dateField : String) (cutoff : ℤ) (cap : ℕ) :
    List Json × Bool × ℕ :=
  windowFrom W dateField cutoff cap rows [] 0

/-- What is known between two pages. -/
structure WindowState where
  collected : List Json
  errors : List ConnectionError
  reachedCutoff : Bool
  pageLimitHit : Bool
  nextPageRejected : Bool

/-- Some more pages, from an address on. -/
def windowLoop (token : String) (original : Url) (dateField : String) (cutoff : ℤ) (cap : ℕ) :
    ℕ → Url → WindowState → CallProgram Url WindowState
  | 0, _, state => return state
  | pages + 1, current, state => do
      match ← (fetch W token current).run with
      | .error e =>
          return { state with errors := state.errors ++ [e], pageLimitHit := false }
      | .ok bytes =>
          match W.parseJson bytes with
          | none =>
              return { state with
                errors := state.errors ++ [.resourceUnavailable], pageLimitHit := false }
          | some value =>
              match page W bytes with
              | .error e =>
                  return { state with errors := state.errors ++ [e], pageLimitHit := false }
              | .ok (rows, _) =>
                  let remaining := cap - state.collected.length
                  let (inWindow, pageReachedCutoff, skipped) :=
                    window W rows dateField cutoff remaining
                  let state := { state with
                    errors := state.errors ++ List.replicate skipped .resourceUnavailable
                    collected := state.collected ++ inWindow }
                  if pageReachedCutoff then
                    return { state with reachedCutoff := true, pageLimitHit := false }
                  else if cap ≤ state.collected.length then
                    return { state with pageLimitHit := false }
                  else
                    match nextPage W value original with
                    | .error e =>
                        return { state with
                          errors := state.errors ++ [e], pageLimitHit := false
                          nextPageRejected := true }
                    | .ok none => return { state with pageLimitHit := false }
                    | .ok (some next) =>
                        windowLoop token original dateField cutoff cap pages next state

/-- There may be more rows than were collected. -/
def WindowState.incomplete (state : WindowState) (cap : ℕ) : Bool :=
  if cap ≤ state.collected.length then true
  else if state.reachedCutoff then false
  else state.pageLimitHit || state.nextPageRejected

/-- The rows of a folder, whether there may be more, and the errors with those that came up. -/
def windowedRows (token : String) (original : Url) (dateField : String) (cutoff : ℤ) (cap : ℕ)
    (errors : List ConnectionError) :
    CallProgram Url (List Json × Bool × List ConnectionError) := do
  let state ← windowLoop W token original dateField cutoff cap 10 original
    ⟨[], errors, false, true, false⟩
  return (state.collected, state.incomplete cap, state.errors)

/-! ### Labels of Gmail -/

namespace Gmail

def listingUrl (origin label : String) (pageToken : Option String) :
    Except ConnectionError Url := do
  let url ← ((W.parse origin).bind fun url => W.join url "gmail/v1/users/me/messages").okOr
    ConnectionError.invalidConfiguration
  let url := W.appendPair url "labelIds" label
  let url := W.appendPair url "q" "newer_than:30d"
  let url := W.appendPair url "maxResults" "100"
  return pageToken.elim url (W.appendPair url "pageToken")

/-- The rows of a page; there are none where there is no array of them. -/
def messages (value : Json) : List Json :=
  ((value.get "messages").bind Json.readArray).getD []

/-- The token of the next page, when it is a text that is not empty. -/
def nextPageToken (value : Json) : Option String :=
  ((value.get "nextPageToken").bind Json.readString).filter (· ≠ "")

/-- Some more pages, from a token on. -/
def listLoop (token origin label : String) :
    ℕ → Option String → List Json → Call Url (List Json × Bool)
  | 0, _, rows => return (rows, true)
  | pages + 1, pageToken, rows => do
      let url ← listingUrl W origin label pageToken
      let bytes ← fetchFromOriginWithHeaders W token url origin []
      let value ← (W.parseJson bytes).okOr ConnectionError.resourceUnavailable
      let remaining := 100 - rows.length
      let listed := rows ++ (messages value).take remaining
      if listed.length = 100 then
        return (listed, (nextPageToken value).isSome || remaining < (messages value).length)
      else
        match nextPageToken value with
        | none => return (listed, false)
        | some next => listLoop token origin label pages (some next) listed

def listRows (token origin label : String) : Call Url (List Json × Bool) :=
  listLoop W token origin label 10 none []

end Gmail

end Graph
