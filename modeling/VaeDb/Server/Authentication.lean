import VaeDb.Server.Site

/-!
# Who obtains a Site

`openSession` reads its arguments from the JSON parameters and asks `getSite` for
the Site.  A secret key is accepted when it is one of the entries that
`boost::split` finds in the `-secret` object.  The split keeps empty entries, and an
absent parameter is the empty string, so the empty key is accepted as soon as one
entry is empty: always when the object is empty, which is also what `read_s3`
returns for a failed download without a cache file.

* `getSite_eq_ok`: a Site comes from the map or from the constructor, and in both
  cases `validateSecretKey` has accepted the key;
* `mem_split_nil`: which contents have an empty entry;
* `openSessionSite_nonempty_iff`: exactly when obtaining a Site implies a non-empty entry
  of the content that the Site was built with.

Whose content that is depends on how the Site got into the map: `Server/Admission.lean`
follows it over whole runs.
-/

namespace VaeDb.Server

/-! ## Parameters -/

/-- The values that a JSON parameter can have, as far as the handlers look at them.  A
floating-point number stands for its truncation. -/
inductive Json
  | null
  | boolean (value : Bool)
  | number (value : ℤ)
  | string (value : Str)
  | array
  | object
  deriving DecidableEq

/-- `json::type_name`. -/
def Json.typeName : Json → Str
  | .null => "null"
  | .boolean _ => "boolean"
  | .number _ => "number"
  | .string _ => "string"
  | .array => "array"
  | .object => "object"

/-- The parsed body of a request; a member that is not there reads as `null`. -/
abbrev Params := Str → Json

/-- The type error 302 of the JSON library. -/
def typeMismatch (expected : Str) (value : Json) : Fault :=
  .jsonTypeError (("[json.exception.type_error.302] type must be " : Str) ++ expected ++
    (", but is " : Str) ++ value.typeName)

/-- `Server::iparam`; a wide integer is cut down to 32 bits. -/
def iparam (params : Params) (name : Str) : Outcome ℤ :=
  match params name with
  | .null => pure 0
  | .boolean value => pure (if value then 1 else 0)
  | .number value => pure (value.bmod (2 ^ 32))
  | value => throw (typeMismatch "number" value)

/-- `Server::sparam`. -/
def sparam (params : Params) (name : Str) : Outcome Str :=
  match params name with
  | .null => pure []
  | .string value => pure value
  | value => throw (typeMismatch "string" value)

/-- The parameters of `openSession`. -/
structure OpenSessionArguments where
  subdomain : Str
  secretKey : Str
  stagingMode : ℤ
  suggestedSessionId : ℤ

/-- `Server::openSession` reads its parameters. -/
def openSessionArguments (params : Params) : Outcome OpenSessionArguments := do
  let subdomain ← sparam params "subdomain"
  let secretKey ← sparam params "secretKey"
  let stagingMode ← iparam params "stagingMode"
  let suggestedSessionId ← iparam params "suggestedSessionId"
  return { subdomain, secretKey, stagingMode, suggestedSessionId }

/-- The arguments that `openSession` passes on to `getSite`. -/
def OpenSessionArguments.request (arguments : OpenSessionArguments) : Request where
  subdomain := arguments.subdomain
  secretKey := arguments.secretKey
  stagingMode := arguments.stagingMode != 0

/-! ## `getSite`, with nobody else around -/

/-- `Server::sites` together with the address of the next object. -/
structure SiteStore where
  sites : SiteMap
  nextAddress : ℕ

/-- `Server::getSite`.  The store comes back also when the call throws: a Site that
was loaded stays in the map even if the secret key is then refused. -/
def getSite (config : Config) (s3 : Str → Transfer) (store : SiteStore) (request : Request) :
    Outcome Site × SiteStore :=
  match store.sites.getSite config request.key request.secretKey with
  | .error fault => (.error fault, store)
  | .ok (some site) => (.ok site, store)
  | .ok none =>
      let xml := if config.testMode then ⟨[], 0⟩ else (s3 (feedName request.subdomain)).getValue
      match Site.new config store.nextAddress request.subdomain request.stagingMode
          (s3 (secretName request.subdomain)) xml with
      | .error fault => (.error fault, store)
      | .ok site =>
          let store : SiteStore :=
            { sites := store.sites.store request.key site, nextAddress := store.nextAddress + 1 }
          match site.validateSecretKey config request.secretKey with
          | .error fault => (.error fault, store)
          | .ok () => (.ok site, store)

/-- The first part of `Server::openSession`: the Site of the new session. -/
def openSessionSite (config : Config) (s3 : Str → Transfer) (store : SiteStore)
    (params : Params) : Outcome Site × SiteStore :=
  match openSessionArguments params with
  | .error fault => (.error fault, store)
  | .ok arguments => getSite config s3 store arguments.request

/-- The Site that the secret key of a request is compared with: the one in the map, else
the one that is constructed, if it loads. -/
def checkedSite (config : Config) (s3 : Str → Transfer) (store : SiteStore)
    (request : Request) : Option Site :=
  match store.sites request.key with
  | some site => some site
  | none =>
      let xml := if config.testMode then ⟨[], 0⟩ else (s3 (feedName request.subdomain)).getValue
      (Site.new config store.nextAddress request.subdomain request.stagingMode
        (s3 (secretName request.subdomain)) xml).toOption

variable {config : Config} {s3 : Str → Transfer} {store : SiteStore} {request : Request}

/-- A Site is obtained exactly when it is the one to compare with and the key is one of
its entries. -/
theorem getSite_eq_ok (htest : config.testMode = false) {site : Site} :
    (getSite config s3 store request).1 = .ok site ↔
      checkedSite config s3 store request = some site ∧
        request.secretKey ∈ site.secretKeys := by
  unfold getSite checkedSite SiteMap.getSite
  cases hcached : store.sites request.key with
  | some cached =>
      by_cases hkey : request.secretKey ∈ cached.secretKeys
      · have hok := (Site.validateSecretKey_eq_ok htest).2 hkey
        simp only [hok, bind, Except.bind, pure, Except.pure, Except.ok.injEq,
          Option.some.injEq]
        exact ⟨fun h => ⟨h, h ▸ hkey⟩, fun h => h.1⟩
      · have herror : cached.validateSecretKey config request.secretKey =
            .error (.vaeDbInternalError "Secret Key Mismatch") := by
          simp [Site.validateSecretKey, htest, hkey, throw, throwThe, MonadExceptOf.throw]
        simp only [herror, bind, Except.bind, Option.some.injEq]
        exact ⟨fun h => by simp at h, fun h => absurd (h.1 ▸ h.2) hkey⟩
  | none =>
      simp only [pure, Except.pure]
      cases hnew : Site.new config store.nextAddress request.subdomain request.stagingMode
          (s3 (secretName request.subdomain))
          (if config.testMode then ⟨[], 0⟩ else (s3 (feedName request.subdomain)).getValue) with
      | error fault => simp [Except.toOption]
      | ok loaded =>
          by_cases hkey : request.secretKey ∈ loaded.secretKeys
          · have hok := (Site.validateSecretKey_eq_ok htest).2 hkey
            simp only [hok, Except.toOption, Except.ok.injEq, Option.some.injEq]
            exact ⟨fun h => ⟨h, h ▸ hkey⟩, fun h => h.1⟩
          · have herror : loaded.validateSecretKey config request.secretKey =
                .error (.vaeDbInternalError "Secret Key Mismatch") := by
              simp [Site.validateSecretKey, htest, hkey, throw, throwThe, MonadExceptOf.throw]
            simp only [herror, Except.toOption, Option.some.injEq]
            exact ⟨fun h => by simp at h, fun h => absurd (h.1 ▸ h.2) hkey⟩

/-! ## Empty entries -/

/-- The content is empty, starts or ends with a separator, or has two separators in a
row. -/
def HasEmptyEntry (separators content : Str) : Prop :=
  content = [] ∨ (∃ c ∈ separators, [c] <+: content) ∨ (∃ c ∈ separators, [c] <:+ content) ∨
    ∃ c ∈ separators, ∃ d ∈ separators, [c, d] <:+: content

/-- The first entry is empty when nothing, or a separator, comes first. -/
theorem split_head_eq_nil (separators content : Str) :
    (split separators content).head? = some [] ↔
      content = [] ∨ ∃ c ∈ separators, [c] <+: content := by
  cases content with
  | nil => simp [split_nil]
  | cons c rest =>
      by_cases hc : c ∈ separators
      · simp [split_cons_of_mem hc, hc]
      · obtain ⟨entry, entries, hsplit⟩ :=
          List.exists_cons_of_ne_nil (split_ne_nil separators rest)
        simp only [split_cons_of_not_mem hc, hsplit, List.modifyHead_cons, List.head?_cons,
          Option.some.injEq, reduceCtorEq, false_or, false_iff]
        rintro ⟨d, hd, hstart⟩
        exact hc ((List.cons_prefix_cons.1 hstart).1 ▸ hd)

/-- A later entry is empty when a separator comes last or two of them are adjacent. -/
theorem mem_split_tail_nil (separators content : Str) :
    [] ∈ (split separators content).tail ↔
      (∃ c ∈ separators, [c] <:+ content) ∨
        ∃ c ∈ separators, ∃ d ∈ separators, [c, d] <:+: content := by
  induction content with
  | nil => simp [split_nil]
  | cons c rest ih =>
      obtain ⟨entry, entries, hsplit⟩ :=
        List.exists_cons_of_ne_nil (split_ne_nil separators rest)
      have hhead := split_head_eq_nil separators rest
      simp only [hsplit, List.head?_cons, Option.some.injEq, List.tail_cons] at hhead ih
      simp only [List.suffix_cons_iff, List.infix_cons_iff, List.cons_prefix_cons]
      by_cases hc : c ∈ separators
      · simp only [split_cons_of_mem hc, hsplit, List.tail_cons, List.mem_cons]
        rw [eq_comm, hhead, ih]
        constructor
        · rintro ((rfl | ⟨d, hd, hstart⟩) | (⟨d, hd, hsuffix⟩ | ⟨d, hd, e, he, hcontained⟩))
          · exact Or.inl ⟨c, hc, Or.inl rfl⟩
          · exact Or.inr ⟨c, hc, d, hd, Or.inl ⟨rfl, hstart⟩⟩
          · exact Or.inl ⟨d, hd, Or.inr hsuffix⟩
          · exact Or.inr ⟨d, hd, e, he, Or.inr hcontained⟩
        · rintro (⟨d, hd, heq | hsuffix⟩ | ⟨d, hd, e, he, hstart | hcontained⟩)
          · exact Or.inl (Or.inl (List.cons.inj heq).2.symm)
          · exact Or.inr (Or.inl ⟨d, hd, hsuffix⟩)
          · exact Or.inl (Or.inr ⟨e, he, hstart.2⟩)
          · exact Or.inr (Or.inr ⟨d, hd, e, he, hcontained⟩)
      · simp only [split_cons_of_not_mem hc, hsplit, List.modifyHead_cons, List.tail_cons]
        rw [ih]
        constructor
        · rintro (⟨d, hd, hsuffix⟩ | ⟨d, hd, e, he, hcontained⟩)
          · exact Or.inl ⟨d, hd, Or.inr hsuffix⟩
          · exact Or.inr ⟨d, hd, e, he, Or.inr hcontained⟩
        · rintro (⟨d, hd, heq | hsuffix⟩ | ⟨d, hd, e, he, hstart | hcontained⟩)
          · exact absurd ((List.cons.inj heq).1 ▸ hd) hc
          · exact Or.inl ⟨d, hd, hsuffix⟩
          · exact absurd (hstart.1 ▸ hd) hc
          · exact Or.inr ⟨d, hd, e, he, hcontained⟩

theorem mem_split_nil (separators content : Str) :
    [] ∈ split separators content ↔ HasEmptyEntry separators content := by
  obtain ⟨entry, entries, hsplit⟩ :=
    List.exists_cons_of_ne_nil (split_ne_nil separators content)
  have hhead := split_head_eq_nil separators content
  have htail := mem_split_tail_nil separators content
  simp only [hsplit, List.head?_cons, Option.some.injEq, List.tail_cons] at hhead htail
  rw [hsplit, List.mem_cons, eq_comm, hhead, htail, HasEmptyEntry, or_assoc]

/-! ## One call of `openSession` -/

theorem Site.mem_secretKeys {site : Site} {key : Str} :
    key ∈ site.secretKeys ↔
      ∃ content, site.secret = some content ∧ key ∈ secretEntries content := by
  unfold Site.secretKeys
  cases site.secret <;> simp

/-- `openSession` obtains the Site that its key is compared with when the key is one of the
entries. -/
theorem openSessionSite_eq_ok (htest : config.testMode = false) {params : Params}
    {arguments : OpenSessionArguments} (harguments : openSessionArguments params = .ok arguments)
    {site : Site} :
    (openSessionSite config s3 store params).1 = .ok site ↔
      checkedSite config s3 store arguments.request = some site ∧
        arguments.secretKey ∈ site.secretKeys := by
  simp only [openSessionSite, harguments]
  exact getSite_eq_ok htest

/-- Outside test mode, obtaining a Site from `openSession` implies that the secret key is
a non-empty entry of the content the Site was built with, exactly when the key is not
empty or that content has no empty entry. -/
theorem openSessionSite_nonempty_iff (htest : config.testMode = false) {params : Params}
    {arguments : OpenSessionArguments} (harguments : openSessionArguments params = .ok arguments) :
    (∀ site, (openSessionSite config s3 store params).1 = .ok site →
        arguments.secretKey ≠ [] ∧
          ∃ content, site.secret = some content ∧
            arguments.secretKey ∈ secretEntries content) ↔
      (arguments.secretKey ≠ [] ∨
        ∀ site content, checkedSite config s3 store arguments.request = some site →
          site.secret = some content → ¬ HasEmptyEntry ",;\n" content) := by
  have hobtained : ∀ site, (openSessionSite config s3 store params).1 = .ok site ↔
      checkedSite config s3 store arguments.request = some site ∧
        arguments.secretKey ∈ site.secretKeys :=
    fun site => openSessionSite_eq_ok htest harguments
  constructor
  · intro h
    by_cases hempty : arguments.secretKey = []
    · -- the empty key must not be an entry of the Site it is compared with
      refine Or.inr fun site content hchecked hsecret hentries => ?_
      have hkey : arguments.secretKey ∈ site.secretKeys :=
        Site.mem_secretKeys.2 ⟨content, hsecret, hempty ▸ (mem_split_nil _ _).2 hentries⟩
      exact (h site ((hobtained site).2 ⟨hchecked, hkey⟩)).1 hempty
    · exact Or.inl hempty
  · intro h site hsite
    obtain ⟨hchecked, hkey⟩ := (hobtained site).1 hsite
    obtain ⟨content, hsecret, hmem⟩ := Site.mem_secretKeys.1 hkey
    refine ⟨fun hempty => ?_, content, hsecret, hmem⟩
    rcases h with hne | hnone
    · exact hne hempty
    · exact hnone site content hchecked hsecret ((mem_split_nil _ _).1 (hempty ▸ hmem))

end VaeDb.Server
