import VaeDb.Basic

/-!
# Sites, their secret keys, and the maps of the server

What `Server` and `Site` do with a request for a Site, apart from the parsing of
the feed itself: `transfer::get_value`, the constructor's reading of the secret
keys, `Site::validateSecretKey`, and the operations on `Server::sites`.  The
sequential `getSite` here and the interleaved one in `Server/Protocol.lean` are
built from these same pieces.

`Site::loadXmlDoc` is a parameter (`Config.loadXmlDoc`): of its result the server
uses only the generation, or that it threw.
-/

namespace VaeDb.Server

/-! ## Objects in S3 -/

/-- An object of the bucket.  The content is what the program reads; the version
counts the writes to the object and is only there to be reasoned about. -/
structure Object where
  content : Str
  version : ℕ

/-- What a `transfer` holds after `finalize`: whether the download failed, what was
received, and the cache file of the object. -/
structure Transfer where
  failed : Bool
  received : Object
  cacheFile : Option Object

/-- `transfer::get_value`, and so the result of `read_s3`. -/
def Transfer.getValue (transfer : Transfer) : Object :=
  if !transfer.failed then transfer.received
  else
    match transfer.cacheFile with
    | some cached => cached
    | none => ⟨[], 0⟩

/-! ## Sites -/

/-- The part of the server's surroundings that does not change. -/
structure Config where
  testMode : Bool
  /-- `Site::loadXmlDoc` on subdomain, staging mode and document: the generation. -/
  loadXmlDoc : Str → Bool → Str → Outcome ℤ

/-- A `Site` object.  `secret` is the content of the `-secret` object that the
constructor read, if it read one; `address` tells objects apart and `feedVersion`
is the version of the feed that the document was parsed from. -/
structure Site where
  address : ℕ
  subdomain : Str
  stagingMode : Bool
  secret : Option Str
  generation : ℤ
  feedVersion : ℕ

/-- The entries of a `-secret` object, as the constructor splits them. -/
def secretEntries (content : Str) : List Str :=
  split ",;\n" content

/-- `Site::secretKeys`. -/
def Site.secretKeys (site : Site) : List Str :=
  match site.secret with
  | some content => secretEntries content
  | none => []

/-- `Site::Site`, with what `read_s3(subdomain + "-secret")` returns. -/
def Site.new (config : Config) (address : ℕ) (subdomain : Str) (stagingMode : Bool)
    (secret : Transfer) (rawxml : Object) : Outcome Site := do
  let secret := if config.testMode then none else some secret.getValue.content
  let generation ← config.loadXmlDoc subdomain stagingMode rawxml.content
  return {
    address
    subdomain := if config.testMode then "local" else subdomain
    stagingMode
    secret
    generation
    feedVersion := rawxml.version }

/-- `Site::validateSecretKey`. -/
def Site.validateSecretKey (config : Config) (site : Site) (secretKey : Str) : Outcome Unit :=
  if config.testMode then pure ()
  else if secretKey ∈ site.secretKeys then pure ()
  else throw (.vaeDbInternalError "Secret Key Mismatch")

/-! ## `Server::sites` -/

/-- The key of a Site in `Server::sites`, and of its mutex in `Server::siteMutexes`. -/
def sitesKey (subdomain : Str) (stagingMode : Bool) : Str :=
  if stagingMode then subdomain ++ (".staging" : Str) else subdomain

/-- `Server::sites`. -/
abbrev SiteMap := Str → Option Site

namespace SiteMap

/-- `Server::_getSite`. -/
def getSite (config : Config) (sites : SiteMap) (key secretKey : Str) :
    Outcome (Option Site) :=
  match sites key with
  | some site => do
      site.validateSecretKey config secretKey
      return some site
  | none => return none

/-- The assignment of `Server::_loadSite`. -/
def store (sites : SiteMap) (key : Str) (site : Site) : SiteMap :=
  Function.update sites key (some site)

/-- Erase a key if it is there: `if (sites.count(key)) sites.erase(key)`. -/
def erase (sites : SiteMap) (key : Str) : SiteMap :=
  if (sites key).isSome then Function.update sites key none else sites

/-- `Server::reloadSite`. -/
def reloadSite (sites : SiteMap) (subdomain : Str) : SiteMap :=
  let sites : SiteMap := if subdomain = ("all" : Str) then fun _ => none else sites
  (sites.erase subdomain).erase (subdomain ++ (".staging" : Str))

end SiteMap

/-! ## Requests -/

/-- The arguments of a `getSite` call. -/
structure Request where
  subdomain : Str
  secretKey : Str
  stagingMode : Bool
  deriving DecidableEq

/-- The key a request looks under. -/
def Request.key (request : Request) : Str :=
  sitesKey request.subdomain request.stagingMode

/-- The name of the feed object that a request reads. -/
def feedName (subdomain : Str) : Str := subdomain ++ ("-feed.xml" : Str)

/-- The name of the object with the secret keys. -/
def secretName (subdomain : Str) : Str := subdomain ++ ("-secret" : Str)

/-! ## Surroundings for runs on fixed inputs -/

/-- Outside test mode, with feeds that all load, with generation 1. -/
def loadingConfig : Config where
  testMode := false
  loadXmlDoc := fun _ _ _ => .ok 1

/-- A download that succeeds. -/
def delivered (content : Str) (version : ℕ) : Transfer := ⟨false, ⟨content, version⟩, none⟩

/-! ## Facts about the pieces -/

theorem Site.validateSecretKey_eq_ok {config : Config} (htest : config.testMode = false)
    {site : Site} {secretKey : Str} :
    site.validateSecretKey config secretKey = .ok () ↔ secretKey ∈ site.secretKeys := by
  unfold Site.validateSecretKey
  rw [htest]
  by_cases h : secretKey ∈ site.secretKeys <;> simp [h]

theorem Site.new_eq_ok {config : Config} {address : ℕ} {subdomain : Str} {stagingMode : Bool}
    {secret : Transfer} {rawxml : Object} {site : Site}
    (h : Site.new config address subdomain stagingMode secret rawxml = .ok site) :
    site.address = address ∧ site.stagingMode = stagingMode ∧
      site.feedVersion = rawxml.version ∧
      (config.testMode = false →
        site.subdomain = subdomain ∧ site.secret = some secret.getValue.content) := by
  obtain ⟨generation, _, hsite⟩ := Outcome.bind_eq_ok.1 h
  rw [← Outcome.pure_eq_ok.1 hsite]
  refine ⟨rfl, rfl, rfl, fun htest => ?_⟩
  simp [htest]

theorem SiteMap.erase_apply (sites : SiteMap) (erased key : Str) :
    sites.erase erased key = if key = erased then none else sites key := by
  unfold erase
  by_cases hkey : key = erased
  · subst hkey
    cases hsite : sites key <;> simp [hsite]
  · split <;> simp [hkey]

/-- The keys that `reloadSite(subdomain)` drops: the two of the subdomain, or all. -/
def Reloads (subdomain key : Str) : Prop :=
  subdomain = ("all" : Str) ∨ key = subdomain ∨ key = subdomain ++ (".staging" : Str)

instance (subdomain key : Str) : Decidable (Reloads subdomain key) :=
  inferInstanceAs (Decidable (_ ∨ _ ∨ _))

theorem SiteMap.reloadSite_apply (sites : SiteMap) (subdomain key : Str) :
    sites.reloadSite subdomain key = if Reloads subdomain key then none else sites key := by
  unfold reloadSite
  rw [erase_apply, erase_apply]
  by_cases hdrop : Reloads subdomain key
  · rw [if_pos hdrop]
    rcases hdrop with hall | hkey | hkey
    · rw [if_pos hall, ite_self, ite_self]
    · rw [if_pos hkey, ite_self]
    · rw [if_pos hkey]
  · rw [if_neg hdrop]
    obtain ⟨hall, hkey, hstaging⟩ := not_or.1 hdrop |>.imp id not_or.1
    rw [if_neg hstaging, if_neg hkey, if_neg hall]

end VaeDb.Server
