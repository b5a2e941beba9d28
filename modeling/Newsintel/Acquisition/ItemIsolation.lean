import Mathlib.Data.List.InsertIdx
import Newsintel.Acquisition.Polling

/-!
# Items that cannot be submitted

The calls that a poll makes, and when an item that no command can be built for changes
the calls for the others. A service is compared on two runs, so its answers must not
depend on the position of an item or on the payload hash: it is blind to them.
-/

namespace Newsintel.Acquisition

open PyText Visits

/-! ### Calls -/

/-- A command without the position of its item and the payload hash. -/
def ObserveDiscoveryCommand.forget (c : ObserveDiscoveryCommand) : ObserveDiscoveryCommand :=
  { c with
    channelPosition := none
    payloadSha256 := none
    payloadSha256_hex := by simp }

inductive Call where
  | observe (c : ObserveDiscoveryCommand)
  | create (c : CreateChannelCommand)
  deriving DecidableEq

def Call.forget : Call → Call
  | .observe c => .observe c.forget
  | .create c => .create c

variable {σ : Type}

/-- The service with a record of the calls made. -/
def DiscoveryAdmission.recorded (admission : DiscoveryAdmission σ) :
    DiscoveryAdmission (σ × List Call) where
  observeDiscovery c s :=
    ((admission.observeDiscovery c s.1).1, (admission.observeDiscovery c s.1).2,
      s.2 ++ [.observe c])
  createChannel c s :=
    ((admission.createChannel c s.1).1, (admission.createChannel c s.1).2, s.2 ++ [.create c])

/-- The answers do not depend on positions and payload hashes. -/
structure DiscoveryAdmission.Blind (admission : DiscoveryAdmission σ) where
  /-- states that differ in stored positions and hashes only -/
  Same : σ → σ → Prop
  refl : ∀ s, Same s s
  observe : ∀ c d s t, c.forget = d.forget → Same s t →
    (admission.observeDiscovery c s).1 = (admission.observeDiscovery d t).1 ∧
      Same (admission.observeDiscovery c s).2 (admission.observeDiscovery d t).2
  create : ∀ c s t, Same s t →
    (admission.createChannel c s).1 = (admission.createChannel c t).1 ∧
      Same (admission.createChannel c s).2 (admission.createChannel c t).2

/-- A service that answers every call and creates no candidate. -/
def knownFrontier : DiscoveryAdmission Unit where
  observeDiscovery _ s := (.ok ⟨false, true⟩, s)
  createChannel _ s := (.ok (), s)

def knownFrontierBlind : knownFrontier.Blind where
  Same _ _ := True
  refl _ := trivial
  observe _ _ _ _ _ _ := ⟨rfl, trivial⟩
  create _ _ _ _ := ⟨rfl, trivial⟩

/-! ### A loop of `_process_payload` -/

/-- What the loops have in common: their key, their end, and how they submit. -/
structure PollLoop (ι κ : Type) where
  key : ι → Option Text
  done : PollCounts → Bool
  submit : {σ : Type} → DiscoveryAdmission σ → κ → PollCounts → σ → Except PyError PollCounts × σ
  call : κ → Call
  forget : κ → κ
  starts : done ⟨0, 0⟩ = false
  call_injective : Function.Injective call
  call_forget : ∀ c, (call c).forget = call (forget c)
  recorded : ∀ {σ : Type} (admission : DiscoveryAdmission σ) c n (s : σ × List Call),
    submit admission.recorded c n s =
      ((submit admission c n s.1).1, (submit admission c n s.1).2, s.2 ++ [call c])
  blind : ∀ {σ : Type} (admission : DiscoveryAdmission σ) (b : admission.Blind) c d n s t,
    forget c = forget d → b.Same s t →
      (submit admission c n s).1 = (submit admission d n t).1 ∧
        b.Same (submit admission c n s).2 (submit admission d n t).2
  answered : ∀ c n, done n = false →
    ∃ n', submit knownFrontier c n () = (.ok n', ()) ∧ done n' = false

/-- The loops that call `observe_discovery`. -/
def observeLoop (svc : ChannelPollService) (key : PolledItem → Option Text) :
    PollLoop PolledItem ObserveDiscoveryCommand where
  key
  done := capReached svc
  submit := submitDiscovery
  call := .observe
  forget := ObserveDiscoveryCommand.forget
  starts := decide_eq_false (Nat.not_le.mpr svc.maxNewUrls_pos)
  call_injective := fun _ _ h => Call.observe.inj h
  call_forget := fun _ => rfl
  recorded := by
    intro σ admission c n s
    unfold submitDiscovery DiscoveryAdmission.recorded
    simp only
    rcases admission.observeDiscovery c s.1 with ⟨r, s'⟩
    cases r <;> rfl
  blind := by
    intro σ admission b c d n s t hcd hst
    obtain ⟨hanswer, hsame⟩ := b.observe c d s t hcd hst
    unfold submitDiscovery
    rcases hc : admission.observeDiscovery c s with ⟨r, s'⟩
    rcases hd : admission.observeDiscovery d t with ⟨r', t'⟩
    rw [hc, hd] at hanswer hsame
    obtain rfl : r = r' := hanswer
    cases r <;> exact ⟨rfl, hsame⟩
  answered := by
    intro c n hn
    exact ⟨_, rfl, hn⟩

/-- The loop that calls `create_channel`. -/
def indexLoop : PollLoop SitemapEntry CreateChannelCommand where
  key _ := none
  done _ := false
  submit := submitChannel
  call := .create
  forget := id
  starts := rfl
  call_injective := fun _ _ h => Call.create.inj h
  call_forget := fun _ => rfl
  recorded := by
    intro σ admission c n s
    unfold submitChannel DiscoveryAdmission.recorded
    simp only
    rcases admission.createChannel c s.1 with ⟨r, s'⟩
    cases r with
    | ok => rfl
    | error e => cases e <;> rfl
  blind := by
    intro σ admission b c d n s t hcd hst
    obtain rfl : c = d := hcd
    obtain ⟨hanswer, hsame⟩ := b.create c s t hst
    unfold submitChannel
    rcases hc : admission.createChannel c s with ⟨r, s'⟩
    rcases hd : admission.createChannel c t with ⟨r', t'⟩
    rw [hc, hd] at hanswer hsame
    obtain rfl : r = r' := hanswer
    cases r with
    | ok => exact ⟨rfl, hsame⟩
    | error e => cases e <;> exact ⟨rfl, hsame⟩
  answered := by
    intro c n hn
    exact ⟨_, rfl, hn⟩

namespace PollLoop

variable {ι κ : Type} (loop : PollLoop ι κ) {command command' : ℕ → ι → Except PyError (Option κ)}
  {verdict : ι → Except PyError (Option κ)} {items : List ι} {x : ι}

/-- The calls of the loop. -/
def calls (admission : DiscoveryAdmission σ) (command : ℕ → ι → Except PyError (Option κ))
    (items : List ι) (s : σ) : List Call :=
  (visit loop.done loop.key command (loop.submit admission.recorded) 0 [] items ⟨0, 0⟩
    (s, [])).2.2

/- Recording changes no answer and no state. -/
theorem visit_recorded (admission : DiscoveryAdmission σ) (i : ℕ) (seen : List Text) (xs : List ι)
    (n : PollCounts) (s : σ × List Call) :
    (visit loop.done loop.key command (loop.submit admission.recorded) i seen xs n s).1 =
        (visit loop.done loop.key command (loop.submit admission) i seen xs n s.1).1 ∧
      (visit loop.done loop.key command (loop.submit admission.recorded) i seen xs n s).2.1 =
        (visit loop.done loop.key command (loop.submit admission) i seen xs n s.1).2 := by
  rw [visit_eq_drive, visit_eq_drive]
  refine drive_project (fun c n s => ?_) _ n s
  rw [loop.recorded]
  exact ⟨rfl, rfl⟩

/- The service that knows everything gets the whole plan. -/
theorem calls_knownFrontier (h : ∀ i x, (command i x).map (Option.map loop.forget) = verdict x) :
    (loop.calls knownFrontier command items ()).map Call.forget =
      (planned loop.key verdict [] items).map loop.call := by
  have hlog : ∀ c n (s : Unit × List Call), loop.done n = false →
      ∃ n' s', loop.submit knownFrontier.recorded c n s = (.ok n', s') ∧
        loop.done n' = false ∧ s'.2 = s.2 ++ [loop.call c] := by
    intro c n s hn
    obtain ⟨n', hsubmit, hn'⟩ := loop.answered c n hn
    refine ⟨n', ((), s.2 ++ [loop.call c]), ?_, hn', rfl⟩
    rw [loop.recorded, hsubmit]
  rw [calls, visit_eq_drive, drive_log hlog loop.starts, List.nil_append, ← plan_forget h 0 [] items,
    List.map_map, List.map_map]
  apply List.map_congr_left
  intro c _
  exact loop.call_forget c

/- Equal plans lead to equal calls of every blind service. -/
theorem calls_congr {items' : List ι} (admission : DiscoveryAdmission σ) (b : admission.Blind)
    (h : ∀ i x, (command i x).map (Option.map loop.forget) = verdict x)
    (h' : ∀ i x, (command' i x).map (Option.map loop.forget) = verdict x)
    (hplan : planned loop.key verdict [] items = planned loop.key verdict [] items') (s : σ) :
    (loop.calls admission command items s).map Call.forget =
      (loop.calls admission command' items' s).map Call.forget := by
  have hsame : ∀ c d n (s t : σ × List Call), loop.forget c = loop.forget d →
      b.Same s.1 t.1 ∧ s.2.map Call.forget = t.2.map Call.forget →
      (loop.submit admission.recorded c n s).1 = (loop.submit admission.recorded d n t).1 ∧
        b.Same (loop.submit admission.recorded c n s).2.1
            (loop.submit admission.recorded d n t).2.1 ∧
          (loop.submit admission.recorded c n s).2.2.map Call.forget =
            (loop.submit admission.recorded d n t).2.2.map Call.forget := by
    intro c d n s t hcd hst
    obtain ⟨hanswer, hnext⟩ := loop.blind admission b c d n s.1 t.1 hcd hst.1
    rw [loop.recorded, loop.recorded]
    refine ⟨hanswer, hnext, ?_⟩
    simp [hst.2, loop.call_forget, hcd]
  rw [← plan_forget h 0 [] items, ← plan_forget h' 0 [] items'] at hplan
  rw [calls, calls, visit_eq_drive, visit_eq_drive]
  exact (drive_congr hsame hplan ⟨b.refl s, rfl⟩ _ _).2

/- Exact condition for one loop. -/
theorem isolated_iff {i : ℕ} (h : ∀ i x, (command i x).map (Option.map loop.forget) = verdict x)
    (h' : ∀ i x, (command' i x).map (Option.map loop.forget) = verdict x)
    (hx : x ∈ items[i]?) (hnone : ∀ c, verdict x ≠ .ok (some c)) :
    (∀ (σ : Type) (admission : DiscoveryAdmission σ), admission.Blind → ∀ s,
      (loop.calls admission command items s).map Call.forget =
        (loop.calls admission command' (items.eraseIdx i) s).map Call.forget) ↔
      harmlessAt loop.key verdict items i = true := by
  rw [← planned_eraseIdx_iff hx hnone]
  constructor
  · intro hcalls
    have hknown := hcalls Unit knownFrontier knownFrontierBlind ()
    rw [loop.calls_knownFrontier h, loop.calls_knownFrontier h'] at hknown
    exact List.map_injective_iff.mpr loop.call_injective hknown
  · intro hplan σ admission b s
    exact loop.calls_congr admission b h h' hplan s

end PollLoop

/-! ### Commands that cannot be built -/

section commands

variable {svc : ChannelPollService} {ext : Externals} {channel : DiscoveryChannel}
  {fetched : FetchResult} {requirePublicationDate : Bool} {item : PolledItem}

/-- The URL is not an absolute http(s) URL, or a text is too long for a command. -/
def PolledItem.Unfit (ext : Externals) (item : PolledItem) : Prop :=
  ext.httpUrl item.url = none ∨ ¬ MaxLength 500 (item.externalId.map stripWhitespace) ∨
    ¬ MaxLength 1000 (item.title.map stripWhitespace) ∨
      ¬ MaxLength 200 (item.publishedAtRaw.map stripWhitespace)

theorem observeCommand_unfit (h : item.Unfit ext) (position : ℕ) (c : ObserveDiscoveryCommand) :
    observeCommand svc ext channel fetched requirePublicationDate position item ≠
      .ok (some c) := by
  rw [observeCommand_eq]
  cases itemDecision svc ext fetched requirePublicationDate item with
  | error e => simp
  | ok d =>
    have hinvalid : ¬ (observeArguments channel fetched d.1 position item).Valid ext.httpUrl := by
      intro hvalid
      rcases h with hurl | hid | htitle | hraw
      · have hsome := hvalid.url
        simp [observeArguments, hurl] at hsome
      · exact hid hvalid.externalId
      · exact htitle hvalid.title
      · exact hraw hvalid.publishedAtRaw
    simp only [ObserveDiscoveryCommand.build, dif_neg hinvalid]
    split <;> simp [Except.map]

/-- What the item's command is, but for its position and payload hash. -/
def observeVerdict (svc : ChannelPollService) (ext : Externals) (channel : DiscoveryChannel)
    (fetched : FetchResult) (requirePublicationDate : Bool) (item : PolledItem) :
    Except PyError (Option ObserveDiscoveryCommand) :=
  (observeCommand svc ext channel fetched requirePublicationDate 0 item).map
    (Option.map ObserveDiscoveryCommand.forget)

/- The payload enters a command through its hash only, which is always well formed. -/
theorem observeCommand_forget (body : Bytes) (position : ℕ) (item : PolledItem) :
    (observeCommand svc ext channel { fetched with body } requirePublicationDate position item).map
        (Option.map ObserveDiscoveryCommand.forget) =
      observeVerdict svc ext channel fetched requirePublicationDate item := by
  rw [observeVerdict, observeCommand_eq, observeCommand_eq]
  have hdecision : itemDecision svc ext { fetched with body } requirePublicationDate item =
      itemDecision svc ext fetched requirePublicationDate item := rfl
  rw [hdecision]
  cases itemDecision svc ext fetched requirePublicationDate item with
  | error e => rfl
  | ok d =>
    simp only
    split
    · have hhash : ∀ payload, ∀ t ∈ (some (payloadSha256 payload)).map stripWhitespace,
          Sha256Hex t := by
        intro payload t ht
        obtain rfl := Option.some.inj ht
        exact payloadSha256_hex payload
      by_cases hvalid : (observeArguments channel fetched d.1 0 item).Valid ext.httpUrl
      · have hvalid' : (observeArguments channel { fetched with body } d.1 position item).Valid
            ext.httpUrl :=
          ⟨hvalid.url, hvalid.externalId, hvalid.title, hvalid.publishedAtRaw, hhash body⟩
        simp only [ObserveDiscoveryCommand.build, dif_pos hvalid, dif_pos hvalid']
        rfl
      · have hvalid' : ¬ (observeArguments channel { fetched with body } d.1 position item).Valid
            ext.httpUrl := by
          intro h
          exact hvalid ⟨h.url, h.externalId, h.title, h.publishedAtRaw, hhash fetched.body⟩
        simp only [ObserveDiscoveryCommand.build, dif_neg hvalid, dif_neg hvalid']
    · rfl

/-- A channel command holds neither a position nor a payload hash. -/
theorem createCommand_forget (position : ℕ) (entry : SitemapEntry) :
    (createCommand ext channel position entry).map (Option.map id) =
      createCommand ext channel 0 entry := by
  unfold createCommand
  cases CreateChannelCommand.build ext.httpUrl _ <;> rfl

theorem createCommand_unfit {entry : SitemapEntry} (h : ext.httpUrl entry.location = none)
    (position : ℕ) (c : CreateChannelCommand) :
    createCommand ext channel position entry ≠ .ok (some c) := by
  have hinvalid : ¬ (CreateChannelArguments.Valid ext.httpUrl
      { publisherId := channel.publisherId
        channelType := .sitemap
        endpointUrl := entry.location
        strategyVersion := channel.strategyVersion
        pollMinSeconds := channel.pollMinSeconds
        pollMaxSeconds := channel.pollMaxSeconds
        currentPollSeconds := channel.currentPollSeconds }) := by
    intro hvalid
    have hsome := hvalid.endpointUrl
    simp [h] at hsome
  simp [createCommand, CreateChannelCommand.build, dif_neg hinvalid, Except.map]

end commands

/-! ### Payloads -/

section payloads

/-- The document without its item number `i`. -/
def PolledDocument.eraseItem (i : ℕ) : PolledDocument → PolledDocument
  | .feed items => .feed (items.eraseIdx i)
  | .urlset entries => .urlset (entries.eraseIdx i)
  | .index entries => .index (entries.eraseIdx i)
  | .links pageLinks => .links (pageLinks.eraseIdx i)

/-- Item number `i` is there, and no command can be built for it. -/
def PolledDocument.UnfitAt (ext : Externals) (i : ℕ) : PolledDocument → Prop
  | .feed items => ∃ item ∈ (items.map (·.polled))[i]?, item.Unfit ext
  | .urlset entries => ∃ item ∈ (entries.map (·.polled))[i]?, item.Unfit ext
  | .index entries => ∃ entry ∈ entries[i]?, ext.httpUrl entry.location = none
  | .links pageLinks => ∃ item ∈ (pageLinks.map (·.polled))[i]?, item.Unfit ext

variable (svc : ChannelPollService) (ext : Externals) (channel : DiscoveryChannel)
  (fetched : FetchResult)

/-- The calls that `_process_payload` makes. -/
def payloadCalls (admission : DiscoveryAdmission σ) (s : σ) : List Call :=
  (processPayload svc ext admission.recorded channel fetched (s, [])).2.2

/-- The calls that `_process_payload` makes for a payload that parses to the document. -/
def documentCalls (admission : DiscoveryAdmission σ) (document : PolledDocument) (s : σ) :
    List Call :=
  (processDocument svc ext admission.recorded channel fetched document (s, [])).2.2

/-- Whatever the service and its state, the calls are those for a payload, with whatever
bytes, that has all items but number `i`. -/
def Isolates (document : PolledDocument) (i : ℕ) : Prop :=
  ∀ (σ : Type) (admission : DiscoveryAdmission σ), admission.Blind → ∀ (body : Bytes) (s : σ),
    (payloadCalls svc ext channel fetched admission s).map Call.forget =
      (documentCalls svc ext channel { fetched with body } admission (document.eraseItem i) s).map
        Call.forget

/-- Item number `i` leaves the others alone. -/
def PolledDocument.harmlessAt (i : ℕ) : PolledDocument → Bool
  | .feed items =>
    Visits.harmlessAt (fun item => some item.url) (observeVerdict svc ext channel fetched true)
      (items.map (·.polled)) i
  | .urlset entries =>
    Visits.harmlessAt (fun _ => (none : Option Text)) (observeVerdict svc ext channel fetched true)
      (entries.map (·.polled)) i
  | .index entries =>
    Visits.harmlessAt (fun _ => (none : Option Text)) (createCommand ext channel 0) entries i
  | .links pageLinks =>
    Visits.harmlessAt (fun _ => (none : Option Text))
      (observeVerdict svc ext channel fetched false) (pageLinks.map (·.polled)) i

variable {svc ext channel fetched} {document : PolledDocument} {i : ℕ}

theorem payloadCalls_eq (hparse : parsePayload ext channel fetched = .ok document)
    (admission : DiscoveryAdmission σ) (s : σ) :
    payloadCalls svc ext channel fetched admission s =
      documentCalls svc ext channel fetched admission document s := by
  rw [payloadCalls, processPayload, hparse]
  rfl

theorem processDocument_recorded (admission : DiscoveryAdmission σ) (s : σ) :
    (processDocument svc ext admission.recorded channel fetched document (s, [])).1 =
        (processDocument svc ext admission channel fetched document s).1 ∧
      (processDocument svc ext admission.recorded channel fetched document (s, [])).2.1 =
        (processDocument svc ext admission channel fetched document s).2 := by
  cases document with
  | feed items => exact (observeLoop svc _).visit_recorded admission 0 [] _ ⟨0, 0⟩ (s, [])
  | urlset entries => exact (observeLoop svc _).visit_recorded admission 0 [] _ ⟨0, 0⟩ (s, [])
  | index entries => exact indexLoop.visit_recorded admission 0 [] _ ⟨0, 0⟩ (s, [])
  | links pageLinks => exact (observeLoop svc _).visit_recorded admission 0 [] _ ⟨0, 0⟩ (s, [])

theorem observeVerdict_unfit {requirePublicationDate : Bool} {item : PolledItem}
    (h : item.Unfit ext) (c : ObserveDiscoveryCommand) :
    observeVerdict svc ext channel fetched requirePublicationDate item ≠ .ok (some c) := by
  intro hverdict
  rw [observeVerdict] at hverdict
  cases hcommand : observeCommand svc ext channel fetched requirePublicationDate 0 item with
  | error e =>
    rw [hcommand] at hverdict
    cases hverdict
  | ok c =>
    cases c with
    | none =>
      rw [hcommand] at hverdict
      cases hverdict
    | some c => exact observeCommand_unfit h 0 c hcommand

/- The loops that observe, whatever their items are read from. -/
theorem observeLoop_isolated_iff (svc : ChannelPollService) (channel : DiscoveryChannel)
    (fetched : FetchResult) (key : PolledItem → Option Text) (requirePublicationDate : Bool)
    {items : List PolledItem} (hbad : ∃ item ∈ items[i]?, item.Unfit ext) :
    (∀ (σ : Type) (admission : DiscoveryAdmission σ), admission.Blind → ∀ (body : Bytes) s,
      ((observeLoop svc key).calls admission
          (observeCommand svc ext channel fetched requirePublicationDate) items s).map Call.forget =
        ((observeLoop svc key).calls admission
          (observeCommand svc ext channel { fetched with body } requirePublicationDate)
          (items.eraseIdx i) s).map Call.forget) ↔
      Visits.harmlessAt key (observeVerdict svc ext channel fetched requirePublicationDate)
        items i = true := by
  obtain ⟨item, hmem, hunfit⟩ := hbad
  have hverdict : ∀ c, observeVerdict svc ext channel fetched requirePublicationDate item ≠
      .ok (some c) := observeVerdict_unfit hunfit
  have hiff := fun body => (observeLoop svc key).isolated_iff
    (observeCommand_forget fetched.body) (observeCommand_forget body) hmem hverdict
  constructor
  · intro h
    exact (hiff fetched.body).mp fun σ admission b => h σ admission b fetched.body
  · intro h σ admission b body
    exact (hiff body).mpr h σ admission b

/- Exact condition for the other items to get the calls they get without a bad one. -/
theorem isolates_iff_harmlessAt (hparse : parsePayload ext channel fetched = .ok document)
    (hbad : document.UnfitAt ext i) :
    Isolates svc ext channel fetched document i ↔
      document.harmlessAt svc ext channel fetched i = true := by
  simp only [Isolates, payloadCalls_eq hparse]
  cases document with
  | feed items =>
    have hiff := observeLoop_isolated_iff svc channel fetched
      (fun item => some item.url) true hbad
    rw [List.eraseIdx_map] at hiff
    exact hiff
  | urlset entries =>
    have hiff := observeLoop_isolated_iff svc channel fetched
      (fun _ => none) true hbad
    rw [List.eraseIdx_map] at hiff
    exact hiff
  | index entries =>
    obtain ⟨entry, hmem, hunfit⟩ := hbad
    have hcommand : ∀ c, createCommand ext channel 0 entry ≠ .ok (some c) :=
      createCommand_unfit hunfit 0
    have hiff := indexLoop.isolated_iff createCommand_forget createCommand_forget hmem hcommand
    constructor
    · intro h
      exact hiff.mp fun σ admission b => h σ admission b fetched.body
    · intro h σ admission b _
      exact hiff.mpr h σ admission b
  | links pageLinks =>
    have hiff := observeLoop_isolated_iff svc channel fetched
      (fun _ => none) false hbad
    rw [List.eraseIdx_map] at hiff
    exact hiff

def sampleLinks : List String := ["https://a.in/news/b", "/news/c"]

/- At the end of a feed a relative link does no harm. -/
theorem trailingLink_isolates :
    parsePayload (sampleExternals sampleLinks) sampleChannel (sampleResponse sampleLinks) =
        .ok (sampleFeed sampleLinks) ∧
      Isolates (samplePollService 200 (by decide)) (sampleExternals sampleLinks) sampleChannel
        (sampleResponse sampleLinks) (sampleFeed sampleLinks) 1 := by
  have hparse : parsePayload (sampleExternals sampleLinks) sampleChannel
      (sampleResponse sampleLinks) = .ok (sampleFeed sampleLinks) :=
    ok_of_toOption (by decide +kernel)
  refine ⟨hparse, (isolates_iff_harmlessAt hparse ⟨_, rfl, Or.inl ?_⟩).mpr ?_⟩
  · decide +kernel
  · exact harmlessAt_last [_] _

/- At its head it hides the items behind it. -/
theorem leadingLink_not_isolated :
    ¬ ∀ (svc : ChannelPollService) (ext : Externals) (channel : DiscoveryChannel)
      (fetched : FetchResult) (document : PolledDocument) (i : ℕ),
      parsePayload ext channel fetched = .ok document → document.UnfitAt ext i →
        Isolates svc ext channel fetched document i := by
  intro h
  have hcalls := h (samplePollService 200 (by decide)) (sampleExternals sampleLinks.reverse)
    sampleChannel (sampleResponse sampleLinks.reverse) (sampleFeed sampleLinks.reverse) 0
    (ok_of_toOption (by decide +kernel)) ⟨_, rfl, Or.inl (by decide +kernel)⟩ Unit knownFrontier
    knownFrontierBlind [] ()
  revert hcalls
  decide +kernel

end payloads

end Newsintel.Acquisition
