import Newsintel.Http.SafeFetcher

/-!
# Connections to public addresses

The check of a URL and the connection to it are two lookups of one host. `fetch` is safe exactly
if the second lookup finds nothing that the first one would have refused, along every chain of
redirects.
-/

namespace Newsintel.Http

open PyText PyUrl

section rounds

variable (u : Unicode) (net : Network) (f : SafeHttpFetcher) (request : FetchRequest)

/-- The URL of a round passes the check. -/
def Passes (round : ℕ) (url : Text) : Prop := validateUrl u (net.getaddrinfo round) url = .ok ()

/-- The URL of a round is answered with a redirect to the target. -/
def Redirects (round : ℕ) (url target : Text) : Prop :=
  ∃ response, net.respond round url (f.headers request) = some response ∧
    response.isRedirect = true ∧ SafeHttpFetcher.redirectTarget u url response = .ok target

/-- The URL of a round, along redirects from servers that can be connected to. -/
inductive Reaches : ℕ → Text → Prop where
  | start : Reaches 0 request.url
  | redirected {round : ℕ} {url target : Text} (h : Reaches round url)
      (hpasses : Passes u net round url) (hlookup : net.clientLookup round url ≠ [])
      (htarget : Redirects u net f request round url target) : Reaches (round + 1) target

/-- `fetch` connects to public addresses only, whichever ones the client picks. -/
def ConnectsPublicly : Prop :=
  ∀ choice, ∀ address ∈ (f.fetch u net choice request).1, address.isGlobal = true

/-- The client's own lookup of a URL that has passed the check finds public addresses only. -/
def LookupsAgree : Prop :=
  ∀ round ≤ f.maxRedirects, ∀ url, Reaches u net f request round url → Passes u net round url →
    ∀ address ∈ net.clientLookup round url, address.isGlobal = true

end rounds


variable {u : Unicode} {net : Network} {choice : ℕ → ℕ} {f : SafeHttpFetcher}
  {request : FetchRequest} {round rounds : ℕ} {url target : Text} {redirects : List Text}
  {address : IpAddress}

/-! ### One round -/

/- A round connects to one of the addresses of the client's lookup, or is redirected. -/
theorem mem_fetchRounds
    (h : address ∈ (f.fetchRounds u net choice request (rounds + 1) round url redirects).1) :
    Passes u net round url ∧ (address ∈ net.clientLookup round url ∨
      net.clientLookup round url ≠ [] ∧ ∃ target, Redirects u net f request round url target ∧
        address ∈ (f.fetchRounds u net choice request rounds (round + 1) target
          (redirects ++ [url])).1) := by
  rw [SafeHttpFetcher.fetchRounds] at h
  split at h
  · cases h
  · rename_i hpasses
    refine ⟨hpasses, ?_⟩
    split at h
    · cases h
    · rename_i first hfirst
      have hmem : first ∈ net.clientLookup round url := List.mem_of_getElem? hfirst
      split at h
      · rw [List.mem_singleton.mp h]
        exact Or.inl hmem
      · rename_i response hresponse
        split at h
        · rename_i hredirect
          split at h
          · rw [List.mem_singleton.mp h]
            exact Or.inl hmem
          · rename_i target htarget
            obtain rfl | h := List.mem_cons.mp h
            · exact Or.inl hmem
            · exact Or.inr ⟨List.ne_nil_of_mem hmem, target, ⟨response, hresponse, hredirect,
                htarget⟩, h⟩
        · rw [List.mem_singleton.mp h]
          exact Or.inl hmem

/- The first connection of a round. -/
theorem fetchRounds_connects (hpasses : Passes u net round url)
    (haddress : (net.clientLookup round url)[choice round]? = some address) :
    address ∈ (f.fetchRounds u net choice request (rounds + 1) round url redirects).1 := by
  have hpasses : validateUrl u (net.getaddrinfo round) url = .ok () := hpasses
  rw [SafeHttpFetcher.fetchRounds]
  simp only [hpasses, haddress]
  split
  · exact List.mem_singleton_self _
  · split
    · split
      · exact List.mem_singleton_self _
      · exact List.mem_cons_self
    · exact List.mem_singleton_self _

/- A redirected round connects to whatever the next round connects to. -/
theorem fetchRounds_redirected (hpasses : Passes u net round url)
    (hlookup : choice round < (net.clientLookup round url).length)
    (htarget : Redirects u net f request round url target) :
    (f.fetchRounds u net choice request rounds (round + 1) target (redirects ++ [url])).1 ⊆
      (f.fetchRounds u net choice request (rounds + 1) round url redirects).1 := by
  have hpasses : validateUrl u (net.getaddrinfo round) url = .ok () := hpasses
  obtain ⟨response, hresponse, hredirect, htarget⟩ := htarget
  intro a ha
  rw [SafeHttpFetcher.fetchRounds]
  simp only [hpasses, List.getElem?_eq_getElem hlookup, hresponse, hredirect, if_true, htarget]
  exact List.mem_cons_of_mem _ ha

/-! ### All rounds -/

theorem fetchRounds_public (h : LookupsAgree u net f request)
    (hround : round + rounds = f.maxRedirects + 1) (hreaches : Reaches u net f request round url) :
    ∀ address ∈ (f.fetchRounds u net choice request rounds round url redirects).1,
      address.isGlobal = true := by
  induction rounds generalizing round url redirects with
  | zero =>
    intro address hmem
    cases hmem
  | succ rounds ih =>
    intro address hmem
    obtain ⟨hpasses, hhere | ⟨hlookup, target, htarget, hlater⟩⟩ := mem_fetchRounds hmem
    · exact h round (by omega) url hreaches hpasses address hhere
    · exact ih (by omega) (hreaches.redirected hpasses hlookup htarget) address hlater

/- What is connected to from a round that is reached, `fetch` connects to. -/
theorem fetchRounds_subset_fetch (hreaches : Reaches u net f request round url)
    (hround : round ≤ f.maxRedirects) (hfirst : ∀ r < round, choice r = 0) :
    ∃ redirects, (f.fetchRounds u net choice request (f.maxRedirects + 1 - round) round url
      redirects).1 ⊆ (f.fetch u net choice request).1 := by
  induction hreaches with
  | start => exact ⟨[], List.Subset.refl _⟩
  | @redirected round url target _ hpasses hlookup htarget ih =>
    obtain ⟨redirects, hsubset⟩ := ih (by omega) fun r hr => hfirst r (by omega)
    refine ⟨redirects ++ [url], List.Subset.trans ?_ hsubset⟩
    have hrounds : f.maxRedirects + 1 - round = f.maxRedirects + 1 - (round + 1) + 1 := by omega
    rw [hrounds]
    refine fetchRounds_redirected hpasses ?_ htarget
    rw [hfirst round (by omega)]
    exact List.length_pos_iff.mpr hlookup

/- Exact condition, over every behaviour of servers and name resolution. -/
theorem connectsPublicly_iff_lookupsAgree (u : Unicode) (net : Network) (f : SafeHttpFetcher)
    (request : FetchRequest) :
    ConnectsPublicly u net f request ↔ LookupsAgree u net f request := by
  constructor
  · intro h round hround url hreaches hpasses address haddress
    obtain ⟨i, hi, rfl⟩ := List.getElem_of_mem haddress
    -- The client takes the first address until it comes to this round.
    let choice : ℕ → ℕ := fun r => if r = round then i else 0
    have hfirst : ∀ r < round, choice r = 0 := fun r hr => if_neg hr.ne
    have hhere : (net.clientLookup round url)[choice round]? =
        some (net.clientLookup round url)[i] := by
      rw [show choice round = i from if_pos rfl, List.getElem?_eq_getElem hi]
    obtain ⟨redirects, hsubset⟩ := fetchRounds_subset_fetch hreaches hround hfirst
    have hrounds : f.maxRedirects + 1 - round = f.maxRedirects - round + 1 := by omega
    rw [hrounds] at hsubset
    exact h choice _ (hsubset (fetchRounds_connects hpasses hhere))
  · intro h choice
    exact fetchRounds_public h (by omega) .start

/-! ### Lookups that agree -/

/- A check that passes has seen public addresses only. -/
theorem public_of_passes (hpasses : Passes u net round url) :
    ∃ parsed results, urlsplit u url [] = .ok parsed ∧
      net.getaddrinfo round (hostname u parsed) = some results ∧
      ∀ address ∈ results, address.isGlobal = true := by
  have hpasses : validateUrl u (net.getaddrinfo round) url = .ok () := hpasses
  unfold validateUrl at hpasses
  split at hpasses
  · cases hpasses
  · rename_i parsed hparsed
    split at hpasses
    · cases hpasses
    · refine ⟨parsed, ?_⟩
      cases hlookup : net.getaddrinfo round (hostname u parsed) with
      | none =>
        rw [hlookup] at hpasses
        cases hpasses
      | some results =>
        refine ⟨results, hparsed, rfl, ?_⟩
        rw [hlookup] at hpasses
        unfold assertPublicHostname at hpasses
        split at hpasses
        · cases hpasses
        · cases hpasses
        · rename_i heq
          cases heq
          split at hpasses
          · cases hpasses
          · rename_i hnone
            intro address hmem
            simpa using List.find?_eq_none.mp hnone address hmem

/- Without rebinding, when the client finds what the check has seen, `fetch` is safe. -/
theorem connectsPublicly_of_subset
    (h : ∀ round url parsed results, urlsplit u url [] = .ok parsed →
      net.getaddrinfo round (hostname u parsed) = some results →
        net.clientLookup round url ⊆ results) : ConnectsPublicly u net f request := by
  intro choice
  refine fetchRounds_public ?_ (by omega) .start
  intro round _ url _ hpasses address haddress
  obtain ⟨parsed, results, hparsed, hlookup, hpublic⟩ := public_of_passes hpasses
  exact hpublic address (h round url parsed results hparsed hlookup haddress)

/-! ### A name that is bound anew -/

/-- The check finds a public address; the client, a moment later, the loopback address. -/
def rebinding : Network where
  getaddrinfo := fun _ _ => some [.v4 (IpAddress.ofOctets 93 184 216 34)]
  clientLookup := fun _ _ => [.v4 (IpAddress.ofOctets 127 0 0 1)]
  respond := fun _ _ _ => none
  clock := fun _ => 0

theorem rebinding_not_public : ¬ ∀ (u : Unicode) (net : Network) (f : SafeHttpFetcher)
    (request : FetchRequest), ConnectsPublicly u net f request := by
  intro h
  have hpublic := h asciiUnicode rebinding ⟨"newsintel".toList, 8000000, 5⟩
    ⟨"http://rebind.example/story".toList, none, none⟩ (fun _ => 0)
    (.v4 (IpAddress.ofOctets 127 0 0 1))
    (by decide +kernel)
  exact absurd hpublic (by decide)

end Newsintel.Http
