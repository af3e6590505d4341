import OpenLoops.Graph.Listing
import OpenLoops.Graph.WriteOnce
import OpenLoops.Library.Paging

/-!
# Coverage of listings

Whatever pages a provider serves, a listing has the rows that it should, and tells that there may
be more unless it has come to the end of the pages or to a row that is older than the cutoff, or
has recorded that a page could not be read.
-/

namespace Graph

variable {Url : Type} (W : Web Url)

/-! ### Pages of a collection -/

/-- A page is read by these steps, with its rows and its link to the next one. -/
def ReadsPage (token origin : String) (original url : Url) (steps : CallSteps Url)
    (rows : List Json) (link : Except ConnectionError (Option Url)) : Prop :=
  ∃ bytes value more, (fetchFromOrigin W token url origin).run.Runs steps (.ok bytes)
    ∧ W.parseJson bytes = some value ∧ page W bytes = .ok (rows, more)
    ∧ nextPage W value original = link

/-- A page cannot be fetched by these steps, or cannot be parsed. -/
def FailsPage (token origin : String) (url : Url) (steps : CallSteps Url) (e : ConnectionError) :
    Prop :=
  (fetchFromOrigin W token url origin).run.Runs steps (.error e)
    ∨ ∃ bytes, (fetchFromOrigin W token url origin).run.Runs steps (.ok bytes)
      ∧ (W.parseJson bytes = none ∧ e = .resourceUnavailable ∨ page W bytes = .error e)

/-- A walk over the pages of a collection. -/
abbrev PageWalk (token origin : String) (original : Url) :=
  Walk (ReadsPage W token origin original) (FailsPage W token origin)

variable {W}

/-- The rows that are seen stand on pages that were fetched. -/
theorem PageWalk.rows {token origin : String} {original url : Url} {steps : CallSteps Url}
    {seen : List Json} {fin : WalkEnd ConnectionError}
    (h : PageWalk W token origin original url steps seen fin) :
  ∀ row ∈ seen, RowFetched W steps row
  := by
  have hpage : ∀ {url : Url} {steps : CallSteps Url} {rows : List Json}
      {link : Except ConnectionError (Option Url)},
      ReadsPage W token origin original url steps rows link →
      ∀ row ∈ rows, RowFetched W steps row := by
    rintro url steps rows link ⟨bytes, value, more, hfetch, -, hpage, -⟩ row hrow
    use url, bytes, rows, more, fetchFromOriginWithHeaders_runs W hfetch, hpage, hrow
  induction h with
  | stopped | failed => exact nofun
  | last hread => exact hpage hread
  | rejected hread => exact hpage hread
  | next hread hrest ih =>
      intro row hrow
      rcases List.mem_append.mp hrow with hrow | hrow
      · apply (hpage hread row hrow).mono (List.subset_append_left _ _)
      · apply (ih row hrow).mono (List.subset_append_right _ _)

/-- A walk that comes to the last page has fetched a page without a link. -/
theorem PageWalk.last {token origin : String} {original url : Url} {steps : CallSteps Url}
    {seen : List Json} (h : PageWalk W token origin original url steps seen .last) :
  ∃ url bytes value, Fetched steps url bytes ∧ W.parseJson bytes = some value
    ∧ nextPage W value original = .ok none
  := by
  generalize hfin : WalkEnd.last = fin at h
  induction h with
  | stopped | failed | rejected => cases hfin
  | last hread =>
      obtain ⟨bytes, value, -, hfetch, hparse, -, hnext⟩ := hread
      exact ⟨_, bytes, value, fetchFromOriginWithHeaders_runs W hfetch, hparse, hnext⟩
  | next hread hrest ih =>
      obtain ⟨url, bytes, value, hfetched, hvalue⟩ := ih hfin
      use url, bytes, value, hfetched.mono (List.subset_append_right _ _)

/-- A listing of a collection: the first rows of the pages that were read, all of which are
returned when there are no more. -/
structure ListsPages (seen : List Json) (fin : WalkEnd ConnectionError) (cap : ℕ)
    (rows : List Json) (incomplete : Bool) : Prop where
  taken : rows = seen.take cap
  complete : incomplete = false → fin = .last ∧ rows = seen
  read : ∀ e, fin ≠ .failed e

/-- A listing may end at any page. -/
theorem ListsPages.of_incomplete {seen : List Json} {fin : WalkEnd ConnectionError} {cap : ℕ}
    (hread : ∀ e, fin ≠ .failed e) :
  ListsPages seen fin cap (seen.take cap) true
  := ⟨rfl, nofun, hread⟩

/-- A page may be listed before others. -/
theorem ListsPages.append {found seen rows : List Json} {fin : WalkEnd ConnectionError} {cap : ℕ}
    {incomplete : Bool} (hfound : found.length ≤ cap)
    (h : ListsPages seen fin (cap - found.length) rows incomplete) :
  ListsPages (found ++ seen) fin cap (found ++ rows) incomplete
  := by
  constructor
  · rw [List.take_append, List.take_of_length_le hfound, h.taken]
  · intro hcomplete
    obtain ⟨hfin, hrows⟩ := h.complete hcomplete
    exact ⟨hfin, hrows ▸ rfl⟩
  · exact h.read

/-- What a loop over pages returns goes on with a listing of the pages that it reads. -/
theorem pagesLoop_lists {token origin : String} {original url : Url} {cap pages : ℕ}
    {all : List Json} {steps : CallSteps Url}
    {result : Except ConnectionError (List Json × Bool)}
    (h : (pagesLoop W token original cap origin pages url all).run.Runs steps result) :
  ∃ seen fin, PageWalk W token origin original url steps seen fin
    ∧ ((∃ e, result = .error e ∧ fin = .failed e) ∨
      ∃ rows incomplete, result = .ok (all ++ rows, incomplete)
        ∧ ListsPages seen fin (cap - all.length) rows incomplete)
  := by
  induction pages generalizing url all steps with
  | zero =>
      obtain ⟨rfl, rfl⟩ := Program.runs_pure.mp h
      use [], .stopped, Walk.stopped url
      right
      use [], true
      constructor
      · rw [List.append_nil]
      · exact ⟨List.take_nil.symm, nofun, nofun⟩
  | succ pages ih =>
      rcases Program.runs_exceptT_bind.mp h with
        ⟨e, rfl, hfailed⟩ | ⟨first, bytes, rest, rfl, hfetch, hrest⟩
      · use [], .failed e, Walk.failed (Or.inl hfailed)
        exact Or.inl ⟨e, rfl, rfl⟩
      rcases Program.runs_liftExcept_bind.mp hrest with ⟨e, he, rfl, rfl⟩ | ⟨value, hvalue, hpage⟩
      · rw [List.append_nil]
        obtain ⟨hparse, rfl⟩ := Option.okOr_eq_error.mp he
        use [], .failed .resourceUnavailable
        constructor
        · exact Walk.failed (Or.inr ⟨bytes, hfetch, Or.inl ⟨hparse, rfl⟩⟩)
        · exact Or.inl ⟨_, rfl, rfl⟩
      rcases Program.runs_liftExcept_bind.mp hpage with
        ⟨e, he, rfl, rfl⟩ | ⟨⟨found, more⟩, hfound, hlast⟩
      · rw [List.append_nil]
        use [], .failed e, Walk.failed (Or.inr ⟨bytes, hfetch, Or.inr he⟩)
        exact Or.inl ⟨e, rfl, rfl⟩
      have hparse : W.parseJson bytes = some value := Option.okOr_eq_ok.mp hvalue
      have hread : ReadsPage W token origin original url first found (nextPage W value original) :=
        ⟨bytes, value, more, hfetch, hparse, hfound, rfl⟩
      -- The loop may end at this page, with more to come.
      have hstop : rest = [] → result = .ok (all ++ found.take (cap - all.length), true) →
          ∃ seen fin, PageWalk W token origin original url (first ++ rest) seen fin
            ∧ ((∃ e, result = .error e ∧ fin = .failed e) ∨
              ∃ rows incomplete, result = .ok (all ++ rows, incomplete)
                ∧ ListsPages seen fin (cap - all.length) rows incomplete) := by
        rintro rfl rfl
        obtain ⟨fin, hwalk, hfin⟩ := Walk.of_read (FailsPage W token origin) hread
        rw [List.append_nil]
        use found, fin, hwalk
        exact Or.inr ⟨_, _, rfl, ListsPages.of_incomplete hfin⟩
      dsimp only at hlast
      split at hlast
      · obtain ⟨hnil, hresult⟩ := Program.runs_pure.mp hlast
        apply hstop hnil hresult
      rename_i hfits
      rw [not_lt] at hfits
      rw [List.take_of_length_le hfits] at hlast hstop
      rcases hnext : nextPage W value original with e | _ | next
      · rw [hnext] at hlast
        obtain ⟨hnil, hresult⟩ := Program.runs_pure.mp hlast
        apply hstop hnil hresult
      · rw [hnext] at hlast hread
        obtain ⟨rfl, rfl⟩ := Program.runs_pure.mp hlast
        rw [List.append_nil]
        use found, .last, Walk.last hread
        right
        use found, false, rfl
        exact ⟨(List.take_of_length_le hfits).symm, fun _ => ⟨rfl, rfl⟩, nofun⟩
      · rw [hnext] at hlast hread
        dsimp only at hlast
        split at hlast
        · obtain ⟨hnil, hresult⟩ := Program.runs_pure.mp hlast
          apply hstop hnil hresult
        · obtain ⟨seen, fin, hwalk, hresult⟩ := ih hlast
          use found ++ seen, fin, Walk.next hread hwalk
          rcases hresult with hfailed | ⟨rows, incomplete, rfl, hlists⟩
          · exact Or.inl hfailed
          · right
            use found ++ rows, incomplete
            constructor
            · rw [List.append_assoc]
            · apply ListsPages.append hfits
              rwa [List.length_append, ← Nat.sub_sub] at hlists

/-- A collection is listed on a walk over its pages. -/
theorem pagesFromOrigin_lists {token origin : String} {original : Url} {cap : ℕ}
    {steps : CallSteps Url} {result : Except ConnectionError (List Json × Bool)}
    (h : (pagesFromOrigin W token original cap origin).run.Runs steps result) :
  ∃ seen fin, PageWalk W token origin original original steps seen fin
    ∧ ((∃ e, result = .error e ∧ fin = .failed e) ∨
      ∃ rows incomplete, result = .ok (rows, incomplete)
        ∧ ListsPages seen fin cap rows incomplete)
  := by
  have hlists := pagesLoop_lists h
  exact hlists

/-- All rows stand on pages that were fetched. -/
theorem pagesLoop_rows {token origin : String} {original url : Url} {cap pages : ℕ}
    {all rows : List Json} {incomplete : Bool} {steps : CallSteps Url}
    (h : (pagesLoop W token original cap origin pages url all).run.Runs steps
      (.ok (rows, incomplete))) :
  ∀ row ∈ rows, row ∈ all ∨ RowFetched W steps row
  := by
  obtain ⟨seen, fin, hwalk, ⟨e, ⟨⟩, -⟩ | ⟨found, more, hresult, hlists⟩⟩ := pagesLoop_lists h
  cases hresult
  intro row hrow
  rcases List.mem_append.mp hrow with hrow | hrow
  · exact Or.inl hrow
  · rw [hlists.taken] at hrow
    exact Or.inr (hwalk.rows row (List.mem_of_mem_take hrow))

/-! ### Windows of folders -/

/-- A listing of a folder: the first rows of the window on the pages that were read.  There may be
more rows unless an older one or the last page was read; a page that could not be read is
recorded. -/
structure ListsWindow (dateOf : Json → Option ℤ) (cutoff : ℤ) (seen : List Json)
    (fin : WalkEnd ConnectionError) (cap : ℕ) (rows : List Json) (incomplete : Bool)
    (errors : List ConnectionError) : Prop where
  taken : NewestFirst dateOf seen → rows = (seen.filter (inWindow dateOf cutoff)).take cap
  covered : incomplete = false → (∃ row ∈ seen, isOlder dateOf cutoff row) ∨ fin = .last
    ∨ ∃ e, fin = .failed e
  complete : incomplete = false → (∀ e, fin ≠ .failed e) → ∀ rest, (fin = .last → rest = []) →
    NewestFirst dateOf (seen ++ rest) → rows = (seen ++ rest).filter (inWindow dateOf cutoff)
  recorded : ∀ e, fin = .failed e → e ∈ errors

/-- There may be more rows than were asked for. -/
theorem WindowState.incomplete_of_full {state : WindowState} {cap : ℕ}
    (h : cap ≤ state.collected.length) :
  state.incomplete cap = true
  := if_pos h

/-- What a loop over pages finds, after some rows that it has collected. -/
structure WindowRun (dateOf : Json → Option ℤ) (cutoff : ℤ) (cap : ℕ) (collected : List Json)
    (seen : List Json) (fin : WalkEnd ConnectionError) (state : WindowState) : Prop where
  taken : NewestFirst dateOf seen →
    state.collected = (collected ++ seen.filter (inWindow dateOf cutoff)).take cap
  older : state.reachedCutoff = true → ∃ row ∈ seen, isOlder dateOf cutoff row
  ended : state.incomplete cap = false → state.reachedCutoff = false →
    fin = .last ∨ ∃ e, fin = .failed e
  recorded : ∀ e, fin = .failed e → e ∈ state.errors

variable {dateField : String} {cutoff : ℤ}

/-- The rows that are kept of a page that is sorted. -/
theorem windowFrom_rows {cap skipped : ℕ} {rows kept : List Json} (hkept : kept.length ≤ cap)
    (hsorted : NewestFirst (timestampOf W dateField) rows) :
  (windowFrom W dateField cutoff cap rows kept skipped).1 =
    (kept ++ rows.filter (inWindow (timestampOf W dateField) cutoff)).take cap
  := by
  induction rows generalizing kept skipped with
  | nil =>
      rw [List.filter_nil, List.append_nil, List.take_of_length_le hkept]
      rfl
  | cons row rows ih =>
      rw [windowFrom]
      split_ifs with hcap
      · have hlength : kept.length = cap := le_antisymm hkept hcap
        rw [List.take_append, List.take_of_length_le hkept, hlength, Nat.sub_self, List.take_zero,
          List.append_nil]
      rw [not_le] at hcap
      have hrest : NewestFirst (timestampOf W dateField) rows := by
        rw [← List.singleton_append] at hsorted
        apply hsorted.right
      split
      · rename_i date hdate
        split_ifs with hold
        · have hfirst : ∃ r ∈ [row], isOlder (timestampOf W dateField) cutoff r :=
            ⟨row, List.mem_singleton_self row, isOlder_iff.mpr ⟨date, hdate, hold⟩⟩
          have hnone : inWindow (timestampOf W dateField) cutoff row = false := by
            simp [inWindow, hdate, hold]
          rw [← List.singleton_append] at hsorted ⊢
          rw [hsorted.filter_append hfirst, List.filter_singleton, hnone, cond_false,
            List.append_nil, List.take_of_length_le hkept]
        · have hwindow : inWindow (timestampOf W dateField) cutoff row = true :=
            inWindow_iff.mpr ⟨date, hdate, not_lt.mp hold⟩
          rw [ih (by rw [List.length_append]; exact hcap) hrest, List.filter_cons_of_pos hwindow,
            List.append_assoc, List.singleton_append]
      · rename_i hdate
        have hnone : ¬ inWindow (timestampOf W dateField) cutoff row = true := by
          simp [inWindow, hdate]
        rw [ih hkept hrest, List.filter_cons_of_neg hnone]

/-- The cutoff is reached at a row that is older. -/
theorem windowFrom_older {cap skipped : ℕ} {rows kept : List Json}
    (h : (windowFrom W dateField cutoff cap rows kept skipped).2.1 = true) :
  ∃ row ∈ rows, isOlder (timestampOf W dateField) cutoff row
  := by
  induction rows generalizing kept skipped with
  | nil => cases h
  | cons row rows ih =>
      rw [windowFrom] at h
      have htail : (∃ r ∈ rows, isOlder (timestampOf W dateField) cutoff r) →
          ∃ r ∈ row :: rows, isOlder (timestampOf W dateField) cutoff r := by
        rintro ⟨r, hr, hold⟩
        use r, List.mem_cons_of_mem row hr
      split_ifs at h with hcap
      split at h
      · rename_i date hdate
        split_ifs at h with hold
        · use row, List.mem_cons_self
          exact isOlder_iff.mpr ⟨date, hdate, hold⟩
        · apply htail (ih h)
      · apply htail (ih h)

/-- What is collected with a page that is sorted. -/
theorem window_rows {cap : ℕ} {rows collected : List Json} (hcollected : collected.length ≤ cap)
    (hsorted : NewestFirst (timestampOf W dateField) rows) :
  collected ++ (window W rows dateField cutoff (cap - collected.length)).1 =
    (collected ++ rows.filter (inWindow (timestampOf W dateField) cutoff)).take cap
  := by
  rw [window, windowFrom_rows (Nat.zero_le _) hsorted, List.nil_append, List.take_append,
    List.take_of_length_le hcollected]

/-- What is collected from a page stays collected. -/
theorem WindowRun.append {dateOf : Json → Option ℤ} {cap : ℕ}
    {collected found seen : List Json} {fin : WalkEnd ConnectionError} {state : WindowState}
    (hlength : (collected ++ found).length < cap) {rows : List Json}
    (hfound : NewestFirst dateOf rows →
      collected ++ found = (collected ++ rows.filter (inWindow dateOf cutoff)).take cap)
    (h : WindowRun dateOf cutoff cap (collected ++ found) seen fin state) :
  WindowRun dateOf cutoff cap collected (rows ++ seen) fin state
  := by
  constructor
  · intro hsorted
    have htake := hfound hsorted.left
    -- The page was not cut off.
    have hall : collected ++ found = collected ++ rows.filter (inWindow dateOf cutoff) := by
      rw [htake, List.length_take] at hlength
      rw [htake]
      apply List.take_of_length_le
      omega
    rw [h.taken hsorted.right, hall, List.filter_append, List.append_assoc]
  · intro hreached
    obtain ⟨row, hrow, hold⟩ := h.older hreached
    use row, List.mem_append_right rows hrow
  · exact h.ended
  · exact h.recorded

/-- What a loop over pages finds on those that it reads. -/
theorem windowLoop_runs {token : String} {original url : Url} {cap pages : ℕ}
    {collected : List Json} {errors : List ConnectionError} {state : WindowState}
    {steps : CallSteps Url} (hcollected : collected.length ≤ cap)
    (h : (windowLoop W token original dateField cutoff cap pages url
      ⟨collected, errors, false, true, false⟩).Runs steps state) :
  ∃ seen fin, PageWalk W token graphOrigin original url steps seen fin
    ∧ WindowRun (timestampOf W dateField) cutoff cap collected seen fin state
  := by
  induction pages generalizing url collected errors steps with
  | zero =>
      obtain ⟨rfl, rfl⟩ := Program.runs_pure.mp h
      use [], .stopped, Walk.stopped url
      constructor
      · intro _
        rw [List.filter_nil, List.append_nil, List.take_of_length_le hcollected]
      · exact nofun
      · intro hincomplete
        simp [WindowState.incomplete] at hincomplete
      · exact nofun
  | succ pages ih =>
      -- A page that cannot be read ends the loop.
      have hfail : ∀ {first : CallSteps Url} {e : ConnectionError},
          FailsPage W token graphOrigin url first e →
          ∃ seen fin, PageWalk W token graphOrigin original url first seen fin
            ∧ WindowRun (timestampOf W dateField) cutoff cap collected seen fin
              ⟨collected, errors ++ [e], false, false, false⟩ := by
        intro first e hfails
        use [], .failed e, Walk.failed hfails
        constructor
        · intro _
          rw [List.filter_nil, List.append_nil, List.take_of_length_le hcollected]
        · exact nofun
        · exact fun _ _ => Or.inr ⟨e, rfl⟩
        · rintro _ ⟨⟩
          apply List.mem_append_right
          apply List.mem_singleton_self
      obtain ⟨first, fetched, rest, rfl, hfetch, hrest⟩ := Program.runs_bind.mp h
      rcases fetched with e | bytes
      · obtain ⟨rfl, rfl⟩ := Program.runs_pure.mp hrest
        rw [List.append_nil]
        apply hfail (Or.inl hfetch)
      dsimp only at hrest
      rcases hparse : W.parseJson bytes with _ | value
      · rw [hparse] at hrest
        obtain ⟨rfl, rfl⟩ := Program.runs_pure.mp hrest
        rw [List.append_nil]
        exact hfail (Or.inr ⟨bytes, hfetch, Or.inl ⟨hparse, rfl⟩⟩)
      rw [hparse] at hrest
      dsimp only at hrest
      rcases hpage : page W bytes with e | ⟨rows, more⟩
      · rw [hpage] at hrest
        obtain ⟨rfl, rfl⟩ := Program.runs_pure.mp hrest
        rw [List.append_nil]
        exact hfail (Or.inr ⟨bytes, hfetch, Or.inr hpage⟩)
      rw [hpage] at hrest
      dsimp only at hrest
      have hread : ReadsPage W token graphOrigin original url first rows
          (nextPage W value original) := ⟨bytes, value, more, hfetch, hparse, hpage, rfl⟩
      generalize hwindow : window W rows dateField cutoff (cap - collected.length) = kept at hrest
      obtain ⟨found, reached, skipped⟩ := kept
      dsimp only at hrest
      have hfound : NewestFirst (timestampOf W dateField) rows → collected ++ found =
          (collected ++ rows.filter (inWindow (timestampOf W dateField) cutoff)).take cap := by
        intro hsorted
        rw [← window_rows hcollected hsorted, hwindow]
      split_ifs at hrest with hreached hcap
      · obtain ⟨rfl, rfl⟩ := Program.runs_pure.mp hrest
        obtain ⟨fin, hwalk, hfin⟩ := Walk.of_read (FailsPage W token graphOrigin) hread
        rw [List.append_nil]
        use rows, fin, hwalk
        constructor
        · exact hfound
        · intro _
          rw [window] at hwindow
          apply windowFrom_older
          rw [hwindow]
          exact hreached
        · exact nofun
        · exact fun e he => absurd he (hfin e)
      · obtain ⟨rfl, rfl⟩ := Program.runs_pure.mp hrest
        obtain ⟨fin, hwalk, hfin⟩ := Walk.of_read (FailsPage W token graphOrigin) hread
        rw [List.append_nil]
        use rows, fin, hwalk
        constructor
        · exact hfound
        · exact nofun
        · intro hincomplete
          cases hincomplete.symm.trans (WindowState.incomplete_of_full hcap)
        · exact fun e he => absurd he (hfin e)
      rw [not_le] at hcap
      rcases hnext : nextPage W value original with e | _ | next
      · rw [hnext] at hrest hread
        obtain ⟨rfl, rfl⟩ := Program.runs_pure.mp hrest
        rw [List.append_nil]
        use rows, .rejected e, Walk.rejected hread
        constructor
        · exact hfound
        · exact nofun
        · intro hincomplete
          simp [WindowState.incomplete] at hincomplete
        · exact nofun
      · rw [hnext] at hrest hread
        obtain ⟨rfl, rfl⟩ := Program.runs_pure.mp hrest
        rw [List.append_nil]
        use rows, .last, Walk.last hread
        constructor
        · exact hfound
        · exact nofun
        · exact fun _ _ => Or.inl rfl
        · exact nofun
      · rw [hnext] at hrest hread
        obtain ⟨seen, fin, hwalk, hrun⟩ := ih hcap.le hrest
        use rows ++ seen, fin, Walk.next hread hwalk
        apply WindowRun.append hcap hfound hrun

/-- What is found from the first page on is listed. -/
theorem WindowRun.lists {dateOf : Json → Option ℤ} {cap : ℕ} {seen : List Json}
    {fin : WalkEnd ConnectionError} {state : WindowState}
    (h : WindowRun dateOf cutoff cap [] seen fin state) :
  ListsWindow dateOf cutoff seen fin cap state.collected (state.incomplete cap) state.errors
  := by
  have hcovered : state.incomplete cap = false →
      (∃ row ∈ seen, isOlder dateOf cutoff row) ∨ fin = .last ∨ ∃ e, fin = .failed e := by
    intro hincomplete
    rcases hreached : state.reachedCutoff with _ | _
    · exact Or.inr (h.ended hincomplete hreached)
    · exact Or.inl (h.older hreached)
  constructor
  · exact h.taken
  · exact hcovered
  · intro hincomplete hread rest hrest hsorted
    have htaken := h.taken hsorted.left
    rw [List.nil_append] at htaken
    -- Fewer rows than asked for were collected, so that none was cut off.
    have hall : state.collected = seen.filter (inWindow dateOf cutoff) := by
      have hfew : state.collected.length < cap := by
        by_contra hfull
        cases hincomplete.symm.trans (WindowState.incomplete_of_full (not_lt.mp hfull))
      rw [htaken, List.length_take] at hfew
      rw [htaken]
      apply List.take_of_length_le
      omega
    rcases hcovered hincomplete with hold | hlast | ⟨e, hfailed⟩
    · rw [hall, hsorted.filter_append hold]
    · rw [hall, hrest hlast, List.append_nil]
    · exact absurd hfailed (hread e)
  · exact h.recorded

/-- The rows of a folder are listed on a walk over its pages. -/
theorem windowedRows_lists {token : String} {original : Url} {cap : ℕ}
    {errors : List ConnectionError} {steps : CallSteps Url}
    {result : List Json × Bool × List ConnectionError}
    (h : (windowedRows W token original dateField cutoff cap errors).Runs steps result) :
  ∃ seen fin, PageWalk W token graphOrigin original original steps seen fin
    ∧ ListsWindow (timestampOf W dateField) cutoff seen fin cap result.1 result.2.1 result.2.2
  := by
  obtain ⟨first, state, rest, rfl, hloop, hrest⟩ := Program.runs_bind.mp h
  obtain ⟨rfl, rfl⟩ := Program.runs_pure.mp hrest
  obtain ⟨seen, fin, hwalk, hrun⟩ := windowLoop_runs (Nat.zero_le cap) hloop
  rw [List.append_nil]
  use seen, fin, hwalk
  exact hrun.lists

/-! ### Labels of Gmail -/

namespace Gmail

variable (W) in
/-- A page is read by these steps, with its messages and the token of the next one. -/
def ReadsPage (token origin label : String) (pageToken : Option String) (steps : CallSteps Url)
    (rows : List Json) (link : Except ConnectionError (Option (Option String))) : Prop :=
  ∃ url bytes value, listingUrl W origin label pageToken = .ok url
    ∧ (fetchFromOriginWithHeaders W token url origin []).run.Runs steps (.ok bytes)
    ∧ W.parseJson bytes = some value ∧ messages value = rows
    ∧ link = .ok ((nextPageToken value).map some)

variable (W) in
/-- A page cannot be fetched by these steps, or cannot be parsed. -/
def FailsPage (token origin label : String) (pageToken : Option String) (steps : CallSteps Url)
    (e : ConnectionError) : Prop :=
  (listingUrl W origin label pageToken = .error e ∧ steps = [])
    ∨ ∃ url, listingUrl W origin label pageToken = .ok url
      ∧ ((fetchFromOriginWithHeaders W token url origin []).run.Runs steps (.error e)
        ∨ ∃ bytes, (fetchFromOriginWithHeaders W token url origin []).run.Runs steps (.ok bytes)
          ∧ W.parseJson bytes = none ∧ e = .resourceUnavailable)

variable (W) in
/-- A walk over the pages of a label. -/
abbrev PageWalk (token origin label : String) :=
  Walk (ReadsPage W token origin label) (FailsPage W token origin label)

/-- What a loop over pages returns goes on with a listing of the pages that it reads. -/
theorem listLoop_lists {token origin label : String} {pages : ℕ} {pageToken : Option String}
    {rows : List Json} {steps : CallSteps Url} {result : Except ConnectionError (List Json × Bool)}
    (hrows : rows.length ≤ 100)
    (h : (listLoop W token origin label pages pageToken rows).run.Runs steps result) :
  ∃ seen fin, PageWalk W token origin label pageToken steps seen fin
    ∧ ((∃ e, result = .error e ∧ fin = .failed e) ∨
      ∃ listed incomplete, result = .ok (rows ++ listed, incomplete)
        ∧ ListsPages seen fin (100 - rows.length) listed incomplete)
  := by
  induction pages generalizing pageToken rows steps with
  | zero =>
      obtain ⟨rfl, rfl⟩ := Program.runs_pure.mp h
      use [], .stopped, Walk.stopped pageToken
      right
      use [], true
      constructor
      · rw [List.append_nil]
      · exact ⟨List.take_nil.symm, nofun, nofun⟩
  | succ pages ih =>
      rcases Program.runs_liftExcept_bind.mp h with ⟨e, he, rfl, rfl⟩ | ⟨url, hurl, hcall⟩
      · use [], .failed e, Walk.failed (Or.inl ⟨he, rfl⟩)
        exact Or.inl ⟨e, rfl, rfl⟩
      rcases Program.runs_exceptT_bind.mp hcall with
        ⟨e, rfl, hfailed⟩ | ⟨first, bytes, rest, rfl, hfetch, hrest⟩
      · use [], .failed e, Walk.failed (Or.inr ⟨url, hurl, Or.inl hfailed⟩)
        exact Or.inl ⟨e, rfl, rfl⟩
      rcases Program.runs_liftExcept_bind.mp hrest with ⟨e, he, rfl, rfl⟩ | ⟨value, hvalue, hlast⟩
      · rw [List.append_nil]
        obtain ⟨hparse, rfl⟩ := Option.okOr_eq_error.mp he
        use [], .failed .resourceUnavailable
        constructor
        · exact Walk.failed (Or.inr ⟨url, hurl, Or.inr ⟨bytes, hfetch, hparse, rfl⟩⟩)
        · exact Or.inl ⟨_, rfl, rfl⟩
      have hparse : W.parseJson bytes = some value := Option.okOr_eq_ok.mp hvalue
      have hread : ReadsPage W token origin label pageToken first (messages value)
          (.ok ((nextPageToken value).map some)) :=
        ⟨url, bytes, value, hurl, hfetch, hparse, rfl, rfl⟩
      dsimp only at hlast
      rcases hnext : nextPageToken value with _ | next
      · rw [hnext] at hlast hread
        split_ifs at hlast with hfull
        · obtain ⟨rfl, rfl⟩ := Program.runs_pure.mp hlast
          rw [List.append_nil]
          use messages value, .last, Walk.last hread
          right
          refine ⟨_, _, rfl, ?_⟩
          constructor
          · rfl
          · intro hcomplete
            constructor
            · rfl
            · apply List.take_of_length_le
              simpa using hcomplete
          · exact nofun
        · obtain ⟨rfl, rfl⟩ := Program.runs_pure.mp hlast
          rw [List.append_nil]
          use messages value, .last, Walk.last hread
          right
          use (messages value).take (100 - rows.length), false, rfl
          constructor
          · rfl
          · intro _
            constructor
            · rfl
            · apply List.take_of_length_le
              rw [List.length_append, List.length_take] at hfull
              omega
          · exact nofun
      · rw [hnext] at hlast hread
        split_ifs at hlast with hfull
        · obtain ⟨rfl, rfl⟩ := Program.runs_pure.mp hlast
          obtain ⟨fin, hwalk, hfin⟩ :=
            Walk.of_read (FailsPage W token origin label) hread
          rw [List.append_nil]
          use messages value, fin, hwalk
          right
          use (messages value).take (100 - rows.length), true, rfl
          exact ListsPages.of_incomplete hfin
        · have hfits : (messages value).length ≤ 100 - rows.length := by
            rw [List.length_append, List.length_take] at hfull
            omega
          rw [List.take_of_length_le hfits] at hlast hfull
          have hlisted : (rows ++ messages value).length ≤ 100 := by
            rw [List.length_append]
            omega
          obtain ⟨seen, fin, hwalk, hresult⟩ := ih hlisted hlast
          use messages value ++ seen, fin, Walk.next hread hwalk
          rcases hresult with hfailed | ⟨listed, incomplete, rfl, hlists⟩
          · exact Or.inl hfailed
          · right
            use messages value ++ listed, incomplete
            constructor
            · rw [List.append_assoc]
            · apply ListsPages.append hfits
              rwa [List.length_append, ← Nat.sub_sub] at hlists

end Gmail

/-- The messages of a label are listed on a walk over its pages. -/
theorem Gmail.listRows_lists {token origin label : String} {steps : CallSteps Url}
    {result : Except ConnectionError (List Json × Bool)}
    (h : (Gmail.listRows W token origin label).run.Runs steps result) :
  ∃ seen fin, Gmail.PageWalk W token origin label none steps seen fin
    ∧ ((∃ e, result = .error e ∧ fin = .failed e) ∨
      ∃ rows incomplete, result = .ok (rows, incomplete)
        ∧ ListsPages seen fin 100 rows incomplete)
  := by
  have hnone : ([] : List Json).length ≤ 100 := Nat.zero_le 100
  have hlists := Gmail.listLoop_lists hnone h
  exact hlists

/-! ### Coverage -/

/-- Whatever is answered, the listings have the rows that they should, and none is reported to be
complete unless it is, or a page that could not be read is recorded. -/
theorem listings_covered (W : Web Url) (serve : ℕ → (o : Operation Url) → o.Answer)
    (token dateField origin label : String) (original : Url) (cutoff : ℤ) (cap : ℕ)
    (errors : List ConnectionError) :
  (let run := (windowedRows W token original dateField cutoff cap errors).eval serve
   ∃ seen fin, PageWalk W token graphOrigin original original run.1 seen fin
    ∧ ListsWindow (timestampOf W dateField) cutoff seen fin cap run.2.1 run.2.2.1 run.2.2.2)
  ∧ (let run := (pagesFromOrigin W token original cap origin).run.eval serve
     ∃ seen fin, PageWalk W token origin original original run.1 seen fin
      ∧ ((∃ e, run.2 = .error e ∧ fin = .failed e) ∨
        ∃ rows incomplete, run.2 = .ok (rows, incomplete)
          ∧ ListsPages seen fin cap rows incomplete))
  ∧ (let run := (Gmail.listRows W token origin label).run.eval serve
     ∃ seen fin, Gmail.PageWalk W token origin label none run.1 seen fin
      ∧ ((∃ e, run.2 = .error e ∧ fin = .failed e) ∨
        ∃ rows incomplete, run.2 = .ok (rows, incomplete)
          ∧ ListsPages seen fin 100 rows incomplete))
  := by
  refine ⟨?_, ?_, ?_⟩
  · apply windowedRows_lists
    apply Program.runs_eval
  · apply pagesFromOrigin_lists
    apply Program.runs_eval
  · apply Gmail.listRows_lists
    apply Program.runs_eval

/-! ### A page that cannot be read -/

/-- A page of a folder, with a message from 100 seconds after the epoch and a link. -/
def folderPage : Json :=
  .object [
    ("value", .array [.object [("receivedDateTime", .string "1970-01-01T00:01:40Z")]]),
    ("@odata.nextLink", .string "https://graph.microsoft.com/v1.0/me/messages?$skip=1")]

def folderBytes : Bytes :=
  ("\x7b\"value\":[\x7b\"receivedDateTime\":\"1970-01-01T00:01:40Z\"\x7d],"
    ++ "\"@odata.nextLink\":\"https://graph.microsoft.com/v1.0/me/messages?$skip=1\"\x7d"
    ).toUTF8.toList

/-- Addresses are texts, and the page of the folder is the only document that can be read. -/
def folderWeb : Web String where
  parse := some
  join := fun url path => some (url ++ path)
  sameOrigin := fun url other =>
    graphOrigin.toList.isPrefixOf url.toList && graphOrigin.toList.isPrefixOf other.toList
  path := fun _ => "/v1.0/me/messages"
  username := fun _ => ""
  password := fun _ => none
  fragment := fun _ => none
  pushSegments := fun _ _ => none
  appendPair := fun url name value => url ++ "&" ++ name ++ "=" ++ value
  parseJson := fun bytes => if bytes = folderBytes then some folderPage else none
  jsonToVec := fun _ => none
  toLowercase := id
  parseRfc3339 := fun text => if text = "1970-01-01T00:01:40Z" then some 100 else none
  formatUtc := fun _ => none
  formatLocalDate := fun _ => none
  formatLocalReminderTime := fun _ => none

/-- The page is sent once, and then nothing any more. -/
def sendOnce (n : ℕ) : (o : Operation String) → o.Answer
  | .send _ => if n = 0 then .ok ⟨200, none, folderBytes, none⟩ else .error .other
  | .connect | .buildClient => true
  | .loadSession _ => none
  | .instant => 0
  | .systemTime => 0
  | .authorize _ _ _ => .error .browserUnavailable
  | .disconnect | .storeSession _ _ | .sleep _ => ()

/-- Only the page of the folder is fetched. -/
theorem fetched_sendOnce {α : Type} {p : CallProgram String α} {url : String} {bytes : Bytes}
    (h : Fetched (p.eval sendOnce).1 url bytes) :
  bytes = folderBytes
  := by
  obtain ⟨request, response, hmem, -, -, -, hbody⟩ := h
  obtain ⟨n, hn⟩ := Program.mem_eval hmem
  simp only [sendOnce] at hn
  split_ifs at hn
  cases hn
  have hpage : boundedBody ⟨200, none, folderBytes, none⟩ = .ok folderBytes := by
    decide +kernel
  rw [hpage] at hbody
  exact (Except.ok.inj hbody).symm

/-- A second page that cannot be fetched ends the listing, which is not reported to be incomplete
although the walk has come neither to an older row nor to the last page. -/
theorem failedPage_not_incomplete :
  let url := "https://graph.microsoft.com/v1.0/me/messages"
  let run := (windowedRows folderWeb "token" url "receivedDateTime" 50 500 []).eval sendOnce
  run.2.2.1 = false ∧ run.2.2.2 = [.transport]
    ∧ ∀ seen fin, PageWalk folderWeb "token" graphOrigin url url run.1 seen fin →
      ¬ ((∃ row ∈ seen, isOlder (timestampOf folderWeb "receivedDateTime") 50 row) ∨ fin = .last)
  := by
  intro url run
  have hparse : folderWeb.parseJson folderBytes = some folderPage := if_pos rfl
  refine ⟨by decide +kernel, by decide +kernel, ?_⟩
  rintro seen fin hwalk (⟨row, hrow, hold⟩ | rfl)
  · obtain ⟨_, bytes, rows, more, hfetched, hpage, hmem⟩ := hwalk.rows row hrow
    rw [fetched_sendOnce hfetched, page, hparse] at hpage
    cases hpage
    obtain rfl := List.mem_singleton.mp hmem
    revert hold
    decide
  · obtain ⟨_, bytes, value, hfetched, hvalue, hnext⟩ := hwalk.last
    rw [fetched_sendOnce hfetched, hparse] at hvalue
    cases hvalue
    revert hnext
    decide

end Graph
