import VaeDb.Response.Offsets
import VaeDb.Site.Feed

/-!
# The options of a response

The constructor of `Response` reads `skip`, `groups`, `limit`, `paginate` and `page` with
`atoi` and checks nothing, so they can be any `int`.
-/

namespace VaeDb.Response

/-! ## The constructor -/

/-- The options of a request, by their names. -/
abbrev Options := Str → Option Str

/-- The words that `ss >> buf` reads. -/
def words (text : Str) : List Str := (text.splitOnP isSpace).filter (· ≠ [])

/-- An option that is read with `atoi`. -/
def Options.int (options : Options) (name : Str) (unset : ℤ) : ℤ :=
  match options name with
  | some value => atoi value
  | none => unset

/-- `page` and `paginate`, once `limit` and `paginate` are read. -/
def readPage (option : Option Str) (paginate : ℤ) : ℤ × ℤ :=
  match option with
  | none => (1, paginate)
  | some value =>
      if value = ("last()" : Str) ∨ value = ("last" : Str) then (-1, paginate)
      else if value = ("all" : Str) ∨ value = ("all()" : Str) then (1, 999999999)
      else (atoi value, paginate)

/-- What the constructor reads from the options. -/
def ofOptions (options : Options) : Response :=
  let limit := options.int "limit" 99999999
  let (page, paginate) := readPage (options "page") (options.int "paginate" limit)
  let (sortType, sortFields) := readOrder (options "order")
  { filter := (options "filter").isSome
    filterTerms :=
      match options "filter" with
      | some value => (words value).map cString
      | none => []
    unique := (options "unique").isSome
    uniqueFields :=
      match options "unique" with
      | some value => split "," value
      | none => []
    groups := options.int "groups" 0
    page
    paginate
    skip := options.int "skip" 0
    sortType
    sortFields }

theorem inInt32_atoi (s : Str) : InInt32 (atoi s) := by
  unfold InInt32 atoi toInt32
  omega

theorem Options.inInt32_int (options : Options) (name : Str) {unset : ℤ}
    (hunset : InInt32 unset) : InInt32 (options.int name unset) := by
  unfold Options.int
  split
  · exact inInt32_atoi _
  · exact hunset

/-- The settings that the window is computed from are `int`s. -/
structure OfInts (response : Response) : Prop where
  skip : InInt32 response.skip
  groups : InInt32 response.groups
  page : InInt32 response.page
  paginate : InInt32 response.paginate

theorem inInt32_readPage (option : Option Str) {paginate : ℤ} (hpaginate : InInt32 paginate) :
    InInt32 (readPage option paginate).1 ∧ InInt32 (readPage option paginate).2 := by
  have hall : InInt32 999999999 := by unfold InInt32; omega
  have hone : InInt32 1 := by unfold InInt32; omega
  have hlast : InInt32 (-1) := by unfold InInt32; omega
  unfold readPage
  split
  · exact ⟨hone, hpaginate⟩
  · split
    · exact ⟨hlast, hpaginate⟩
    · split
      · exact ⟨hone, hall⟩
      · exact ⟨inInt32_atoi _, hpaginate⟩

/-- Whatever the options are. -/
theorem ofInts_ofOptions (options : Options) : (ofOptions options).OfInts := by
  have hzero : InInt32 0 := by unfold InInt32; omega
  have hlimit : InInt32 (options.int "limit" 99999999) :=
    options.inInt32_int _ (by unfold InInt32; omega)
  have hpaginate := options.inInt32_int "paginate" hlimit
  have hpage := inInt32_readPage (options "page") hpaginate
  exact ⟨options.inInt32_int _ hzero, options.inInt32_int _ hzero, hpage.1, hpage.2⟩

end VaeDb.Response
