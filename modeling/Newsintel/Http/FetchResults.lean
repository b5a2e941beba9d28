import Newsintel.Http.PublicTargets

/-!
# Results of a fetch

`fetch` returns a response exactly if a chain of redirects within the limit leads to it and its
body stays within the limit. The chain, the body and its digest are in the result.
-/

namespace Newsintel.Http

open PyText PyUrl

/-! ### Bodies -/

/- The limit is checked after each chunk, and what is read only grows. -/
theorem readBody_eq (maxBytes : ℕ) (body : Bytes) (chunks : List Bytes)
    (hbody : body.length ≤ maxBytes) :
    readBody maxBytes body chunks =
      if (body ++ chunks.flatten).length ≤ maxBytes then .ok (body ++ chunks.flatten)
      else .error .exceededByteLimit := by
  induction chunks generalizing body with
  | nil => rw [readBody, List.flatten_nil, List.append_nil, if_pos hbody]
  | cons chunk chunks ih =>
    rw [readBody, List.flatten_cons, ← List.append_assoc]
    by_cases hchunk : maxBytes < (body ++ chunk).length
    · rw [if_pos hchunk, if_neg]
      rw [List.length_append]
      omega
    · rw [if_neg hchunk, ih _ (Nat.le_of_not_lt hchunk)]

section chains

variable (u : Unicode) (net : Network) (choice : ℕ → ℕ) (f : SafeHttpFetcher)
  (request : FetchRequest)

/-- From a round on, each URL passes the check, is connected to, and redirects to the next one. -/
def Hops : ℕ → Text → List (Text × IpAddress) → Text → Prop
  | _, url, [], last => url = last
  | round, url, hop :: hops, last =>
    hop.1 = url ∧ Passes u net round url ∧
      (net.clientLookup round url)[choice round]? = some hop.2 ∧
      ∃ target, Redirects u net f request round url target ∧ Hops (round + 1) target hops last

/-- The URL of a round passes the check, and the server at the address sends a response that is
no redirect. -/
structure Answered (round : ℕ) (url : Text) (address : IpAddress) (response : Response) : Prop where
  passes : Passes u net round url
  lookup : (net.clientLookup round url)[choice round]? = some address
  respond : net.respond round url (f.headers request) = some response
  noRedirect : response.isRedirect = false

/-- A result, of a chain of redirects and the response at its end. -/
structure ResultOf (chain : List Text) (response : Response) (now : Timestamp)
    (result : FetchResult) : Prop where
  requested : result.requestedUrl = request.url
  redirectChain : result.redirectChain = chain
  finalUrl : result.finalUrl = response.url
  statusCode : result.statusCode = response.statusCode
  headers : result.headers = response.headers.map fun h => (u.lower h.1, h.2)
  body : result.body = response.chunks.flatten
  bodyLimit : result.body.length ≤ f.maxBytes
  digest : result.bodySha256 = Sha256.hexdigest (result.body.map UInt8.toNat)
  retrievedAt : result.retrievedAt = now

variable {u net choice f request} {rounds round : ℕ} {url last : Text} {redirects : List Text}
  {addresses : List IpAddress} {result : FetchResult} {hops : List (Text × IpAddress)}

theorem resultOf_ok {response : Response} {chain : List Text} {now : Timestamp} :
    f.resultOf u request response chain now = .ok result ↔
      ResultOf u f request chain response now result := by
  rw [SafeHttpFetcher.resultOf, readBody_eq _ _ _ (Nat.zero_le _), List.nil_append]
  constructor
  · intro h
    split at h
    · rename_i hlimit
      cases h
      exact ⟨rfl, rfl, rfl, rfl, rfl, rfl, hlimit, rfl, rfl⟩
    · cases h
  · rintro ⟨hrequested, hchain, hfinal, hstatus, hheaders, hbody, hlimit, hdigest, hretrieved⟩
    rw [hbody] at hlimit hdigest
    rw [if_pos hlimit]
    obtain ⟨⟩ := result
    simp only at hrequested hchain hfinal hstatus hheaders hbody hdigest hretrieved
    subst hrequested hchain hfinal hstatus hheaders hbody hdigest hretrieved
    rfl

/-! ### One round -/

/-- How a round ends. -/
inductive RoundEnd where
  | fails (addresses : List IpAddress) (e : FetchError)
  | answers (address : IpAddress) (response : Response)
  | redirects (address : IpAddress) (target : Text)

variable (u net choice f request) in
def roundEnd (round : ℕ) (url : Text) : RoundEnd :=
  match validateUrl u (net.getaddrinfo round) url with
  | .error e => .fails [] e
  | .ok () =>
    match (net.clientLookup round url)[choice round]? with
    | none => .fails [] .client
    | some address =>
      match net.respond round url (f.headers request) with
      | none => .fails [address] .client
      | some response =>
        if response.isRedirect then
          match SafeHttpFetcher.redirectTarget u url response with
          | .error e => .fails [address] e
          | .ok target => .redirects address target
        else .answers address response

theorem fetchRounds_succ (rounds round : ℕ) (url : Text) (redirects : List Text) :
    f.fetchRounds u net choice request (rounds + 1) round url redirects =
      match roundEnd u net choice f request round url with
      | .fails addresses e => (addresses, .error e)
      | .answers address response =>
        ([address], f.resultOf u request response redirects (net.clock round))
      | .redirects address target =>
        let rest := f.fetchRounds u net choice request rounds (round + 1) target
          (redirects ++ [url])
        (address :: rest.1, rest.2) := by
  rw [SafeHttpFetcher.fetchRounds, roundEnd]
  cases validateUrl u (net.getaddrinfo round) url with
  | error e => rfl
  | ok _ =>
    cases (net.clientLookup round url)[choice round]? with
    | none => rfl
    | some address =>
      cases net.respond round url (f.headers request) with
      | none => rfl
      | some response =>
        simp only
        by_cases hredirect : response.isRedirect = true
        · simp only [hredirect, if_true]
          cases SafeHttpFetcher.redirectTarget u url response <;> rfl
        · simp only [hredirect]
          rfl

theorem roundEnd_answers {address : IpAddress} {response : Response} :
    roundEnd u net choice f request round url = .answers address response ↔
      Answered u net choice f request round url address response := by
  constructor
  · intro h
    unfold roundEnd at h
    split at h
    · cases h
    · rename_i hpasses
      split at h
      · cases h
      · rename_i first hfirst
        split at h
        · cases h
        · rename_i answer hanswer
          split at h
          · split at h <;> cases h
          · rename_i hredirect
            cases h
            exact ⟨hpasses, hfirst, hanswer, Bool.eq_false_iff.mpr hredirect⟩
  · rintro ⟨hpasses, hlookup, hrespond, hredirect⟩
    have hpasses : validateUrl u (net.getaddrinfo round) url = .ok () := hpasses
    simp only [roundEnd, hpasses, hlookup, hrespond, hredirect, Bool.false_eq_true, if_false]

theorem roundEnd_redirects {address : IpAddress} {target : Text} :
    roundEnd u net choice f request round url = .redirects address target ↔
      Passes u net round url ∧ (net.clientLookup round url)[choice round]? = some address ∧
        Redirects u net f request round url target := by
  constructor
  · intro h
    unfold roundEnd at h
    split at h
    · cases h
    · rename_i hpasses
      split at h
      · cases h
      · rename_i first hfirst
        split at h
        · cases h
        · rename_i answer hanswer
          split at h
          · rename_i hredirect
            split at h
            · cases h
            · rename_i htarget
              cases h
              exact ⟨hpasses, hfirst, answer, hanswer, hredirect, htarget⟩
          · cases h
  · rintro ⟨hpasses, hlookup, response, hrespond, hredirect, htarget⟩
    have hpasses : validateUrl u (net.getaddrinfo round) url = .ok () := hpasses
    simp only [roundEnd, hpasses, hlookup, hrespond, hredirect, if_true, htarget]

/- No round raises `TooManyRedirects`. -/
theorem roundEnd_fails {e : FetchError}
    (h : roundEnd u net choice f request round url = .fails addresses e) :
    e ≠ .tooManyRedirects ∧ addresses.length ≤ 1 := by
  unfold roundEnd at h
  split at h
  · rename_i e' hvalidate
    cases h
    refine ⟨?_, Nat.zero_le _⟩
    rintro rfl
    unfold validateUrl at hvalidate
    split at hvalidate
    · cases hvalidate
    · split at hvalidate
      · cases hvalidate
      · unfold assertPublicHostname at hvalidate
        split at hvalidate
        · cases hvalidate
        · cases hvalidate
        · split at hvalidate <;> cases hvalidate
  · split at h
    · cases h
      exact ⟨nofun, Nat.zero_le _⟩
    · split at h
      · cases h
        exact ⟨nofun, le_refl _⟩
      · split at h
        · split at h
          · rename_i e' htarget
            cases h
            refine ⟨?_, le_refl _⟩
            rintro rfl
            unfold SafeHttpFetcher.redirectTarget at htarget
            split at htarget
            · cases htarget
            · cases htarget
            · split at htarget <;> cases htarget
          · cases h
        · cases h

theorem resultOf_error {response : Response} {chain : List Text} {now : Timestamp}
    {e : FetchError} (h : f.resultOf u request response chain now = .error e) :
    e = .exceededByteLimit := by
  rw [SafeHttpFetcher.resultOf, readBody_eq _ _ _ (Nat.zero_le _)] at h
  split at h
  · cases h
  · cases h
    rfl

/-! ### All rounds -/

theorem fetchRounds_ok (rounds round : ℕ) (url : Text) (redirects : List Text) :
    f.fetchRounds u net choice request rounds round url redirects = (addresses, .ok result) ↔
      ∃ hops last address response, Hops u net choice f request round url hops last ∧
        hops.length < rounds ∧
        Answered u net choice f request (round + hops.length) last address response ∧
        addresses = hops.map Prod.snd ++ [address] ∧
        ResultOf u f request (redirects ++ hops.map Prod.fst) response
          (net.clock (round + hops.length)) result := by
  induction rounds generalizing round url redirects addresses with
  | zero =>
    constructor
    · intro h
      cases h
    · rintro ⟨hops, _, _, _, _, hlength, _⟩
      exact absurd hlength (Nat.not_lt_zero _)
  | succ rounds ih =>
    rw [fetchRounds_succ]
    cases hend : roundEnd u net choice f request round url with
    | fails failed e =>
      constructor
      · intro h
        cases h
      · rintro ⟨hops, last, address, response, hhops, _, hanswered, _⟩
        cases hops with
        | nil =>
          obtain rfl : url = last := hhops
          cases (roundEnd_answers.mpr hanswered).symm.trans hend
        | cons hop hops =>
          obtain ⟨_, hpasses, hlookup, target, htarget, _⟩ := hhops
          cases (roundEnd_redirects.mpr ⟨hpasses, hlookup, htarget⟩).symm.trans hend
    | answers address response =>
      have hanswered := roundEnd_answers.mp hend
      simp only [Prod.mk.injEq]
      constructor
      · rintro ⟨rfl, hresult⟩
        refine ⟨[], url, address, response, rfl, Nat.succ_pos _, hanswered, rfl, ?_⟩
        rw [List.map_nil, List.append_nil]
        exact resultOf_ok.mp hresult
      · rintro ⟨hops, last, address', response', hhops, _, hanswered', haddresses, hresult⟩
        cases hops with
        | nil =>
          obtain rfl : url = last := hhops
          cases (roundEnd_answers.mpr hanswered').symm.trans hend
          rw [List.map_nil, List.append_nil] at hresult
          exact ⟨haddresses.symm, resultOf_ok.mpr hresult⟩
        | cons hop hops =>
          obtain ⟨_, hpasses, hlookup, target, htarget, _⟩ := hhops
          cases (roundEnd_redirects.mpr ⟨hpasses, hlookup, htarget⟩).symm.trans hend
    | redirects address target =>
      obtain ⟨hpasses, hlookup, htarget⟩ := roundEnd_redirects.mp hend
      simp only [Prod.mk.injEq]
      constructor
      · rintro ⟨rfl, hresult⟩
        obtain ⟨hops, last, address', response, hhops, hlength, hanswered, haddresses, hresult⟩ :=
          (ih (round + 1) target (redirects ++ [url])).mp (Prod.ext rfl hresult)
        have hplace : round + 1 + hops.length = round + (hops.length + 1) := by omega
        rw [hplace] at hanswered hresult
        refine ⟨(url, address) :: hops, last, address', response,
          ⟨rfl, hpasses, hlookup, target, htarget, hhops⟩, Nat.succ_lt_succ hlength, hanswered,
          congrArg (address :: ·) haddresses, ?_⟩
        rw [List.map_cons, List.append_cons]
        exact hresult
      · rintro ⟨hops, last, address', response, hhops, hlength, hanswered, haddresses, hresult⟩
        cases hops with
        | nil =>
          obtain rfl : url = last := hhops
          cases (roundEnd_answers.mpr hanswered).symm.trans hend
        | cons hop hops =>
          obtain ⟨rfl, _, hlookup', target', htarget', hrest⟩ := hhops
          cases (roundEnd_redirects.mpr ⟨hpasses, hlookup', htarget'⟩).symm.trans hend
          have hplace : round + 1 + hops.length = round + (hops.length + 1) := by omega
          rw [List.length_cons, ← hplace] at hanswered hresult
          rw [List.map_cons, List.append_cons] at hresult
          have hfetched := (ih (round + 1) target (redirects ++ [hop.1])).mpr
              ⟨hops, last, address', response, hrest, Nat.lt_of_succ_lt_succ hlength, hanswered,
                rfl, hresult⟩
          rw [hfetched]
          exact ⟨haddresses.symm, rfl⟩

theorem fetchRounds_tooMany (rounds round : ℕ) (url : Text) (redirects : List Text) :
    (f.fetchRounds u net choice request rounds round url redirects).2 =
        .error .tooManyRedirects ↔
      ∃ hops last, Hops u net choice f request round url hops last ∧ hops.length = rounds := by
  induction rounds generalizing round url redirects with
  | zero => exact iff_of_true rfl ⟨[], url, rfl, rfl⟩
  | succ rounds ih =>
    rw [fetchRounds_succ]
    have hnone : (∀ address target,
        roundEnd u net choice f request round url ≠ .redirects address target) →
          ¬ ∃ hops last, Hops u net choice f request round url hops last ∧
            hops.length = rounds + 1 := by
      rintro hno ⟨hops, last, hhops, hlength⟩
      obtain ⟨hop, hops, rfl⟩ := List.exists_cons_of_length_eq_add_one hlength
      obtain ⟨_, hpasses, hlookup, target, htarget, _⟩ := hhops
      exact hno _ _ (roundEnd_redirects.mpr ⟨hpasses, hlookup, htarget⟩)
    cases hend : roundEnd u net choice f request round url with
    | fails failed e =>
      refine iff_of_false ?_ (hnone (by simp [hend]))
      intro h
      exact (roundEnd_fails hend).1 (Except.error.inj h)
    | answers address response =>
      refine iff_of_false ?_ (hnone (by simp [hend]))
      intro h
      cases resultOf_error h
    | redirects address target =>
      obtain ⟨hpasses, hlookup, htarget⟩ := roundEnd_redirects.mp hend
      refine (ih (round + 1) target (redirects ++ [url])).trans ?_
      constructor
      · rintro ⟨hops, last, hhops, rfl⟩
        exact ⟨(url, address) :: hops, last, ⟨rfl, hpasses, hlookup, target, htarget, hhops⟩, rfl⟩
      · rintro ⟨hops, last, hhops, hlength⟩
        obtain ⟨hop, hops, rfl⟩ := List.exists_cons_of_length_eq_add_one hlength
        obtain ⟨_, _, hlookup', target', htarget', hrest⟩ := hhops
        cases (roundEnd_redirects.mpr ⟨hpasses, hlookup', htarget'⟩).symm.trans hend
        exact ⟨hops, last, hrest, Nat.succ.inj hlength⟩

end chains

/- Exactly the results: a chain of at most `max_redirects` redirects, each after its check, and at
its end a response whose body is within the limit. -/
theorem fetch_ok_iff (u : Unicode) (net : Network) (choice : ℕ → ℕ) (f : SafeHttpFetcher)
    (request : FetchRequest) (addresses : List IpAddress) (result : FetchResult) :
    f.fetch u net choice request = (addresses, .ok result) ↔
      ∃ hops last address response, Hops u net choice f request 0 request.url hops last ∧
        hops.length ≤ f.maxRedirects ∧
        Answered u net choice f request hops.length last address response ∧
        addresses = hops.map Prod.snd ++ [address] ∧
        ResultOf u f request (hops.map Prod.fst) response (net.clock hops.length) result := by
  rw [SafeHttpFetcher.fetch, fetchRounds_ok]
  simp only [Nat.zero_add, List.nil_append, Nat.lt_succ_iff]

/- The limit is exceeded by one redirect more, and by nothing else. -/
theorem fetch_tooManyRedirects_iff (u : Unicode) (net : Network) (choice : ℕ → ℕ)
    (f : SafeHttpFetcher) (request : FetchRequest) :
    (f.fetch u net choice request).2 = .error .tooManyRedirects ↔
      ∃ hops last, Hops u net choice f request 0 request.url hops last ∧
        hops.length = f.maxRedirects + 1 :=
  fetchRounds_tooMany _ _ _ _

end Newsintel.Http
