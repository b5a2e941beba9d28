import Newsintel.Acquisition.ChannelRows
import Newsintel.Lib.Runs

/-!
# Stored validators and the items of their responses

Polls of any channels, on a database that other workers write too. A poll that
succeeds stores the `ETag` and `Last-Modified` of its response, whatever the cap on
newly admitted URLs made it leave out; the next poll is then answered by a 304. The
items of a response are all observed when the cap does not come before them.
-/

namespace Newsintel.Acquisition

open PyText Visits

/-! ### What a poll keeps -/

section keeps

variable {svc : ChannelPollService} {ext : Externals} {turns : ℕ → Turn}
  {channel : DiscoveryChannel} {fetched : FetchResult}

theorem submitDiscovery_keeps (c : ObserveDiscoveryCommand) (n : PollCounts) (s : Service) :
    s.db.Keeps (submitDiscovery (acquisitionService ext turns) c n s).2.db := by
  have hcall : s.db.Keeps (transact turns (fun turn => observeDiscovery ext turn c) s).2.db := by
    apply transact_keeps
    intro turn db answer db' h
    obtain ⟨-, -, hkeeps, -⟩ := observeDiscovery_ok h
    exact hkeeps
  unfold submitDiscovery acquisitionService
  simp only
  rcases hrun : transact turns (fun turn => observeDiscovery ext turn c) s with ⟨r, s'⟩
  rw [hrun] at hcall
  cases r <;> exact hcall

theorem submitChannel_keeps (c : CreateChannelCommand) (n : PollCounts) (s : Service) :
    s.db.Keeps (submitChannel (acquisitionService ext turns) c n s).2.db := by
  have hcall : s.db.Keeps (transact turns (fun turn => createChannel ext turn c) s).2.db := by
    apply transact_keeps
    intro turn db answer db' h
    exact createChannel_ok h
  unfold submitChannel acquisitionService
  simp only
  rcases hrun : transact turns (fun turn => createChannel ext turn c) s with ⟨r, s'⟩
  rw [hrun] at hcall
  cases r with
  | ok => exact hcall
  | error e => cases e <;> exact hcall

theorem processDocument_keeps (document : PolledDocument) (s : Service) :
    s.db.Keeps
      (processDocument svc ext (acquisitionService ext turns) channel fetched document s).2.db := by
  have hrefl : ∀ s : Service, s.db.Keeps s.db := fun s => .refl s.db
  have htrans : ∀ a b c : Service, a.db.Keeps b.db → b.db.Keeps c.db → a.db.Keeps c.db :=
    fun _ _ _ h h' => h.trans h'
  cases document with
  | feed items =>
    rw [processDocument, pollFeed, visit_eq_drive]
    exact drive_relates hrefl htrans submitDiscovery_keeps _ _ s
  | urlset entries =>
    rw [processDocument, pollUrlset, visit_eq_drive]
    exact drive_relates hrefl htrans submitDiscovery_keeps _ _ s
  | index entries =>
    rw [processDocument, pollIndex, visit_eq_drive]
    exact drive_relates hrefl htrans submitChannel_keeps _ _ s
  | links pageLinks =>
    rw [processDocument, pollLinks, visit_eq_drive]
    exact drive_relates hrefl htrans submitDiscovery_keeps _ _ s

theorem processPayload_keeps (s : Service) :
    s.db.Keeps (processPayload svc ext (acquisitionService ext turns) channel fetched s).2.db := by
  rw [processPayload]
  cases parsePayload ext channel fetched with
  | error e => exact .refl s.db
  | ok document => exact processDocument_keeps document s

theorem poll_keeps (fetch : FetchRequest → Except PyError FetchResult) (runId : Uuid)
    (completedAt : Timestamp) (s : Service) :
    s.db.Keeps
      (poll svc ext (acquisitionService ext turns) fetch channel runId completedAt s).2.db := by
  unfold poll
  cases fetch (pollRequest channel) with
  | error e => exact .refl s.db
  | ok fetched =>
    simp only
    split
    · exact .refl s.db
    · split
      · exact .refl s.db
      · have hkeeps : s.db.Keeps
            (processPayload svc ext (acquisitionService ext turns) channel fetched s).2.db :=
          processPayload_keeps s
        rcases hrun : processPayload svc ext (acquisitionService ext turns) channel fetched s with
          ⟨r, s'⟩
        rw [hrun] at hkeeps
        cases r <;> exact hkeeps

end keeps

/-! ### Items and their fingerprints -/

/-- `bytes.fromhex(canonicalize_url(text).fingerprint)`. -/
def urlFingerprint (ext : Externals) (text : Text) : Option Bytes :=
  (canonicalizeUrl ext.unicode ext.nameprep defaultPolicy text).toOption.map
    fun canonical => fromHex canonical.fingerprint

def commandFingerprint (ext : Externals) (c : ObserveDiscoveryCommand) : Option Bytes :=
  urlFingerprint ext c.url

def itemFingerprint (ext : Externals) (item : PolledItem) : Option Bytes :=
  (ext.httpUrl item.url).bind (urlFingerprint ext)

/-- The channel has a `url_discoveries` row for the item's candidate. -/
def ItemObserved (ext : Externals) (db : Database) (channelId : Uuid) (item : PolledItem) : Prop :=
  ∃ fingerprint ∈ itemFingerprint ext item, db.Observed fingerprint channelId

instance (ext : Externals) (db : Database) (channelId : Uuid) (item : PolledItem) :
    Decidable (ItemObserved ext db channelId item) :=
  match h : itemFingerprint ext item with
  | none => isFalse (by simp [ItemObserved, h])
  | some fingerprint => decidable_of_iff (db.Observed fingerprint channelId) (by
      simp [ItemObserved, h])

namespace PolledDocument

/-- The items that a document offers as articles; the entries of an index are sitemaps. -/
def articleItems : PolledDocument → List PolledItem
  | feed items => items.map (·.polled)
  | urlset entries => entries.map (·.polled)
  | index _ => []
  | links pageLinks => pageLinks.map (·.polled)

/-- `require_publication_date`. -/
def requiresDate : PolledDocument → Bool
  | feed _ | urlset _ | index _ => true
  | links _ => false

/-- What `seen_urls` remembers of an item. -/
def itemKey : PolledDocument → PolledItem → Option Text
  | feed _ => fun item => some item.url
  | urlset _ | index _ | links _ => fun _ => none

end PolledDocument

section items

variable (svc : ChannelPollService) (ext : Externals) (channel : DiscoveryChannel)
  (fetched : FetchResult)

/-- `should_admit_article_url(...).accepted`, at the time of the response. -/
def accepts (requirePublicationDate : Bool) (item : PolledItem) : Bool :=
  match itemDecision svc ext fetched requirePublicationDate item with
  | .ok (_, decision) => decision.accepted
  | .error _ => false

/-- The commands for the items, in the order of the loop. -/
def documentCommands (document : PolledDocument) : List ObserveDiscoveryCommand :=
  (plan document.itemKey (observeCommand svc ext channel fetched document.requiresDate) 0 []
    document.articleItems).1

variable {svc ext channel fetched} {turns : ℕ → Turn} {document : PolledDocument}
  {item : PolledItem}

theorem processDocument_articles {σ : Type} (admission : DiscoveryAdmission σ)
    (h : ∀ entries, document ≠ .index entries) (s : σ) :
    processDocument svc ext admission channel fetched document s =
      visit (capReached svc) document.itemKey
        (observeCommand svc ext channel fetched document.requiresDate)
        (submitDiscovery admission) 0 [] document.articleItems ⟨0, 0⟩ s := by
  cases document with
  | index entries => exact absurd rfl (h entries)
  | _ => rfl

theorem not_index_of_mem (h : item ∈ document.articleItems) (entries : List SitemapEntry) :
    document ≠ .index entries := by
  rintro rfl
  cases h

theorem documentCommands_channel {c : ObserveDiscoveryCommand}
    (h : c ∈ documentCommands svc ext channel fetched document) : c.channelId = channel.id := by
  obtain ⟨position, item, -, hcommand⟩ := mem_plan h
  exact (observeCommand_ok hcommand).2

/-- An answered call is recorded; it counts as admitted only when its fingerprint is new. -/
theorem submitDiscovery_recording :
    Recording (submitDiscovery (acquisitionService ext turns)) PollCounts.admitted
      (commandFingerprint ext) (fun s => s.db.fingerprints)
      (fun s c => ∃ fingerprint ∈ commandFingerprint ext c,
        s.db.Observed fingerprint c.channelId) := by
  have hcall : ∀ (c : ObserveDiscoveryCommand) (n : PollCounts) (s : Service) (n' : PollCounts)
      (s' : Service), submitDiscovery (acquisitionService ext turns) c n s = (.ok n', s') →
      ∃ fingerprint, commandFingerprint ext c = some fingerprint ∧
        s'.db.Observed fingerprint c.channelId ∧
        (some fingerprint ∈ s.db.fingerprints → n'.admitted ≤ n.admitted) ∧
        n'.admitted ≤ n.admitted + 1 := by
    intro c n s n' s' h
    unfold submitDiscovery acquisitionService at h
    simp only at h
    rcases hrun : transact turns (fun turn => observeDiscovery ext turn c) s with ⟨r, t⟩
    rw [hrun] at h
    cases r with
    | error e => cases h
    | ok answer =>
      obtain ⟨db, hkeeps, hanswer⟩ := transact_ok hrun
      obtain ⟨canonical, hcanonical, -, hobserved, hcreated⟩ := observeDiscovery_ok hanswer
      cases h
      refine ⟨fromHex canonical.fingerprint, ?_, hobserved, ?_, ?_⟩
      · rw [commandFingerprint, urlFingerprint, hcanonical]
        rfl
      · intro hknown
        cases hnew : answer.candidateCreated with
        | false => exact Nat.le_refl _
        | true => exact absurd (hkeeps.fingerprints hknown) (hcreated hnew)
      · exact Nat.add_le_add_left (Bool.toNat_le answer.candidateCreated) _
  refine ⟨?_, ?_, ?_, ?_, ?_⟩
  · intro c n s n' s' h
    have hkeeps : s.db.Keeps (submitDiscovery (acquisitionService ext turns) c n s).2.db :=
      submitDiscovery_keeps c n s
    rw [h] at hkeeps
    exact hkeeps.fingerprints
  · intro c n s n' s' h
    obtain ⟨fingerprint, hmark, hobserved, -, -⟩ := hcall c n s n' s' h
    obtain ⟨id, hid, -⟩ := Database.observed_iff.mp hobserved
    rw [hmark]
    exact Database.mem_fingerprints.mpr ⟨id, hid⟩
  · intro c n s n' s' h
    obtain ⟨fingerprint, hmark, -, hsame, hcount⟩ := hcall c n s n' s' h
    rw [hmark]
    split
    · rename_i hknown
      exact hsame hknown
    · exact hcount
  · rintro c n s n' s' d h ⟨fingerprint, hmark, hobserved⟩
    have hkeeps : s.db.Keeps (submitDiscovery (acquisitionService ext turns) c n s).2.db :=
      submitDiscovery_keeps c n s
    rw [h] at hkeeps
    exact ⟨fingerprint, hmark, hkeeps.observed hobserved⟩
  · intro c n s n' s' h
    obtain ⟨fingerprint, hmark, hobserved, -, -⟩ := hcall c n s n' s' h
    exact ⟨fingerprint, hmark, hobserved⟩

/-- The item was observed before, or an item with its fingerprint is submitted before
the cap: the ones submitted before that bring too few new fingerprints. -/
def Covered (svc : ChannelPollService) (ext : Externals) (db : Database)
    (channel : DiscoveryChannel) (fetched : FetchResult) (document : PolledDocument)
    (item : PolledItem) : Prop :=
  ItemObserved ext db channel.id item ∨
    ∃ pre c post, documentCommands svc ext channel fetched document = pre ++ c :: post ∧
      commandFingerprint ext c = itemFingerprint ext item ∧
      newMarks db.fingerprints (pre.map (commandFingerprint ext)) < svc.maxNewUrlsPerChannelPoll

/- The command at a place, with too few new fingerprints before it. -/
theorem covered_at {db : Database} (i : ℕ)
    (hmark : (documentCommands svc ext channel fetched document)[i]?.map (commandFingerprint ext) =
      some (itemFingerprint ext item))
    (hnew : newMarks db.fingerprints
      (((documentCommands svc ext channel fetched document).take i).map (commandFingerprint ext)) <
        svc.maxNewUrlsPerChannelPoll) :
    Covered svc ext db channel fetched document item := by
  obtain ⟨c, hc, hmark⟩ := Option.map_eq_some_iff.mp hmark
  obtain ⟨hi, rfl⟩ := List.getElem?_eq_some_iff.mp hc
  have hsplit := (List.take_append_drop i _).symm.trans
    (congrArg _ (List.drop_eq_getElem_cons hi))
  exact Or.inr ⟨_, _, _, hsplit, hmark, hnew⟩

/- A covered item of a loop that ends normally is observed. -/
theorem processDocument_observed {s s' : Service} {n : PollCounts}
    (h : processDocument svc ext (acquisitionService ext turns) channel fetched document s =
      (.ok n, s'))
    (hitem : item ∈ document.articleItems)
    (hcovered : Covered svc ext s.db channel fetched document item) :
    ItemObserved ext s'.db channel.id item := by
  rcases hcovered with hbefore | ⟨pre, c, post, hplan, hmark, hnew⟩
  · obtain ⟨fingerprint, hfingerprint, hobserved⟩ := hbefore
    have hkeeps : s.db.Keeps
        (processDocument svc ext (acquisitionService ext turns) channel fetched document s).2.db :=
      processDocument_keeps document s
    rw [h] at hkeeps
    exact ⟨fingerprint, hfingerprint, hkeeps.observed hobserved⟩
  · have hc : c ∈ documentCommands svc ext channel fetched document := by
      rw [hplan]
      exact List.mem_append_right _ List.mem_cons_self
    have hchannel : c.channelId = channel.id := documentCommands_channel hc
    rw [processDocument_articles _ (not_index_of_mem hitem), visit_eq_drive] at h
    rw [documentCommands] at hplan
    rw [hplan] at h
    have hdone : ∀ n : PollCounts, n.admitted < svc.maxNewUrlsPerChannelPoll →
        capReached svc n = false := fun n hn => decide_eq_false (Nat.not_le.mpr hn)
    obtain ⟨fingerprint, hfingerprint, hobserved⟩ :=
      submitDiscovery_recording.drive_records hdone h (by simpa using hnew)
    exact ⟨fingerprint, hmark ▸ hfingerprint, hchannel ▸ hobserved⟩

end items

/-! ### Runs of polls -/

/-- The database, the copies in the hands of workers, and the responses whose validators
were stored, with the copies they were fetched for. -/
structure PollState where
  db : Database
  leased : List DiscoveryChannel
  stored : List (DiscoveryChannel × FetchResult)

inductive PollStep where
  | leaseDueChannels (workerId : Text) (now : Timestamp) (limit leaseSeconds : ℕ)
      (locked : List Uuid)
  | poll (channel : DiscoveryChannel) (fetch : FetchRequest → Except PyError FetchResult)
      (turns : ℕ → Turn) (runId : Uuid) (completedAt : Timestamp)
  | others (commits : Database → Database) (keeps : ∀ db : Database, db.Keeps (commits db))

/-- The channel update of `SqlAlchemyPollingRepository.complete`. -/
def recordCompletion (completion : PollCompletion) (db : Database) : Database :=
  { db with
    channels := Table.update (·.id) completion.channelId (completeChannel completion) db.channels }

/-- The response, when the poll stores one of its validators. -/
def storedResponse (completion : PollCompletion) (channel : DiscoveryChannel)
    (answer : Except PyError FetchResult) : List (DiscoveryChannel × FetchResult) :=
  match answer with
  | .error _ => []
  | .ok fetched =>
    if completion.status = .succeeded && (completion.etag.isSome || completion.lastModified.isSome)
    then [(channel, fetched)] else []

/-- A poll runs to its end on a copy that its worker holds. -/
def pollStep (svc : ChannelPollService) (ext : Externals) (st : PollState) :
    PollStep → Option PollState
  | .leaseDueChannels workerId now limit leaseSeconds locked =>
    let (copies, channels) := leaseDueChannels workerId now limit leaseSeconds locked st.db.channels
    some { st with db := { st.db with channels }, leased := st.leased ++ copies }
  | .poll channel fetch turns runId completedAt =>
    if channel ∈ st.leased then
      let (completion, s) := poll svc ext (acquisitionService ext turns) fetch channel runId
        completedAt ⟨st.db, 0⟩
      some
        { db := recordCompletion completion s.db
          leased := st.leased.erase channel
          stored := st.stored ++ storedResponse completion channel (fetch (pollRequest channel)) }
    else none
  | .others commits _ => some { st with db := commits st.db }

/-- Every item of a stored response that the filter accepts has been observed. -/
def NothingHidden (svc : ChannelPollService) (ext : Externals) (st : PollState) : Prop :=
  ∀ p ∈ st.stored, ∀ document, parsePayload ext p.1 p.2 = .ok document →
    ∀ item ∈ document.articleItems, accepts svc ext p.2 document.requiresDate item = true →
      ItemObserved ext st.db p.1.id item

/-- The cap does not come before an accepted item of a response with a validator. -/
def withinCap (svc : ChannelPollService) (ext : Externals) (st : PollState) : PollStep → Prop
  | .poll channel fetch _ _ _ =>
    ∀ fetched document, fetch (pollRequest channel) = .ok fetched →
      ((fetched.header "etag").isSome || (fetched.header "last-modified").isSome) = true →
      parsePayload ext channel fetched = .ok document → ∀ item ∈ document.articleItems,
        accepts svc ext fetched document.requiresDate item = true →
          Covered svc ext st.db channel fetched document item
  | _ => True

section runs

variable {svc : ChannelPollService} {ext : Externals} {st st' : PollState} {step : PollStep}

theorem recordCompletion_keeps (completion : PollCompletion) (db : Database) :
    db.Keeps (recordCompletion completion db) :=
  ⟨List.Subset.refl _, List.Subset.refl _⟩

theorem pollStep_keeps (h : pollStep svc ext st step = some st') : st.db.Keeps st'.db := by
  cases step with
  | leaseDueChannels workerId now limit leaseSeconds locked =>
    cases h
    exact ⟨List.Subset.refl _, List.Subset.refl _⟩
  | others commits keeps =>
    cases h
    exact keeps st.db
  | poll channel fetch turns runId completedAt =>
    unfold pollStep at h
    simp only at h
    split at h
    · cases h
      exact (poll_keeps fetch runId completedAt ⟨st.db, 0⟩).trans (recordCompletion_keeps _ _)
    · cases h

/- What a poll that stores a validator has done. -/
theorem poll_stored {turns : ℕ → Turn} {fetch : FetchRequest → Except PyError FetchResult}
    {channel : DiscoveryChannel} {runId : Uuid} {completedAt : Timestamp} {s s' : Service}
    {completion : PollCompletion} {p : DiscoveryChannel × FetchResult} {document : PolledDocument}
    (hpoll : poll svc ext (acquisitionService ext turns) fetch channel runId completedAt s =
      (completion, s'))
    (hp : p ∈ storedResponse completion channel (fetch (pollRequest channel)))
    (hparse : parsePayload ext p.1 p.2 = .ok document) :
    p.1 = channel ∧ fetch (pollRequest channel) = .ok p.2 ∧
      ((p.2.header "etag").isSome || (p.2.header "last-modified").isSome) = true ∧
      ∃ n, processDocument svc ext (acquisitionService ext turns) channel p.2 document s =
        (.ok n, s') := by
  unfold storedResponse at hp
  unfold poll at hpoll
  cases hfetch : fetch (pollRequest channel) with
  | error e => simp [hfetch] at hp
  | ok fetched =>
    rw [hfetch] at hp hpoll
    simp only at hp hpoll
    split at hp
    · rename_i hstored
      obtain rfl := List.mem_singleton.mp hp
      rw [Bool.and_eq_true, decide_eq_true_eq] at hstored
      obtain ⟨hsucceeded, hvalidators⟩ := hstored
      split at hpoll
      · obtain ⟨rfl, -⟩ := (Prod.mk.injEq ..).mp hpoll
        cases hsucceeded
      · split at hpoll
        · obtain ⟨rfl, -⟩ := (Prod.mk.injEq ..).mp hpoll
          cases hsucceeded
        · rw [processPayload, hparse] at hpoll
          rcases hrun : processDocument svc ext (acquisitionService ext turns) channel fetched
            document s with ⟨r, t⟩
          simp only [hrun] at hpoll
          cases r with
          | error e =>
            obtain ⟨rfl, -⟩ := (Prod.mk.injEq ..).mp hpoll
            cases hsucceeded
          | ok n =>
            obtain ⟨rfl, rfl⟩ := (Prod.mk.injEq ..).mp hpoll
            exact ⟨rfl, rfl, hvalidators, n, rfl⟩
    · cases hp

theorem pollStep_nothingHidden (hst : NothingHidden svc ext st) (hcap : withinCap svc ext st step)
    (h : pollStep svc ext st step = some st') : NothingHidden svc ext st' := by
  have hkept : ∀ p ∈ st.stored, ∀ document, parsePayload ext p.1 p.2 = .ok document →
      ∀ item ∈ document.articleItems, accepts svc ext p.2 document.requiresDate item = true →
        ItemObserved ext st'.db p.1.id item := by
    intro p hp document hparse item hitem haccepts
    obtain ⟨fingerprint, hfingerprint, hobserved⟩ := hst p hp document hparse item hitem haccepts
    exact ⟨fingerprint, hfingerprint, (pollStep_keeps h).observed hobserved⟩
  cases step with
  | leaseDueChannels workerId now limit leaseSeconds locked =>
    cases h
    exact hkept
  | others commits keeps =>
    cases h
    exact hkept
  | poll channel fetch turns runId completedAt =>
    unfold pollStep at h
    simp only at h
    split at h
    · rcases hpoll : poll svc ext (acquisitionService ext turns) fetch channel runId completedAt
        ⟨st.db, 0⟩ with ⟨completion, s⟩
      rw [hpoll] at h
      cases h
      intro p hp document hparse item hitem haccepts
      rcases List.mem_append.mp hp with hp | hp
      · exact hkept p hp document hparse item hitem haccepts
      · obtain ⟨rfl, hfetch, hvalidators, n, hrun⟩ := poll_stored hpoll hp hparse
        have hcovered := hcap p.2 document hfetch hvalidators hparse item hitem haccepts
        obtain ⟨fingerprint, hmark, hobserved⟩ := processDocument_observed hrun hitem hcovered
        exact ⟨fingerprint, hmark, (recordCompletion_keeps completion s.db).observed hobserved⟩
    · cases h

/- Run theorem: from any database, with any copies in the hands of workers. -/
theorem nothingHidden_of_withinCap {db : Database} {leased : List DiscoveryChannel}
    {steps : List PollStep}
    (hcap : Runs.Every (pollStep svc ext) (withinCap svc ext) ⟨db, leased, []⟩ steps)
    (h : Runs.exec (pollStep svc ext) ⟨db, leased, []⟩ steps = some st) :
    NothingHidden svc ext st := by
  have hstart : NothingHidden svc ext ⟨db, leased, []⟩ := by
    intro p hp
    cases hp
  exact Runs.invariant_of_every hstart (fun _ _ _ hm hC hn => pollStep_nothingHidden hm hC hn)
    hcap h

end runs

/-! ### A feed of two stories -/

def sampleStories : List String := ["https://a.in/news/b", "https://a.in/news/c"]

/-- One active channel, due at once, and nothing observed yet. -/
def sampleDatabase : Database where
  publishers := [newPublisher 1 "Example".toList "example".toList "a.in".toList 0]
  channels := [{ sampleChannel with nextPollAt := some 0 }]
  candidates := []
  discoveries := []
  outbox := []

/-- Calls without other workers and without failures. -/
def quietTurn (n : ℕ) : Turn where
  others := id
  others_keep := fun db => .refl db
  now := 1767351600000000
  candidateId := 100 + n
  discoveryId := 200 + n
  channelId := 300 + n
  failure := none

/-- The copy of the sample channel that worker `a` is handed. -/
def sampleCopy : DiscoveryChannel :=
  leaseChannelRow "a".toList 1767351600000000 120 { sampleChannel with nextPollAt := some 0 }

/-- The channel is leased and polled once. -/
def storyRun (links : List String) : List PollStep :=
  [.leaseDueChannels "a".toList 1767351600000000 20 120 [],
    .poll sampleCopy (fun _ => .ok (sampleResponse links)) quietTurn 9 1767351601000000]

def storyStep (maxNewUrls : ℕ) (h : 0 < maxNewUrls) (links : List String) :
    PollState → PollStep → Option PollState :=
  pollStep (samplePollService maxNewUrls h) (sampleExternals links)

def storyItem (link : String) : PolledItem where
  url := link.toList
  externalId := none
  title := none
  publishedAtRaw := some "2026-01-02".toList

/- With room for both stories nothing is hidden. -/
theorem roomForBoth_nothingHidden :
    ∃ st, Runs.exec (storyStep 2 (by decide) sampleStories) ⟨sampleDatabase, [], []⟩
        (storyRun sampleStories) = some st ∧
      NothingHidden (samplePollService 2 (by decide)) (sampleExternals sampleStories) st := by
  have hend : (Runs.exec (storyStep 2 (by decide) sampleStories) ⟨sampleDatabase, [], []⟩
      (storyRun sampleStories)).isSome = true := by decide +kernel
  obtain ⟨st, hst⟩ := Option.isSome_iff_exists.mp hend
  refine ⟨st, hst, nothingHidden_of_withinCap ?_ hst⟩
  refine Runs.every_cons_of (C := withinCap _ _) trivial fun m hm => ?_
  refine Runs.every_cons_of (C := withinCap _ _) ?_ fun _ _ => Runs.every_nil
  intro fetched document hfetch _ hparse item hitem _
  cases hfetch
  cases hm
  have hdocument : parsePayload (sampleExternals sampleStories) sampleCopy
      (sampleResponse sampleStories) = .ok (sampleFeed sampleStories) :=
    ok_of_toOption (by decide +kernel)
  cases hdocument.symm.trans hparse
  -- the first command is the first story's, and at the second one new story is behind
  obtain rfl | hitem := List.mem_cons.mp hitem
  · exact covered_at 0 (by decide +kernel) (by decide +kernel)
  · obtain rfl := List.mem_singleton.mp hitem
    exact covered_at 1 (by decide +kernel) (by decide +kernel)

/- A cap of one: the second story is never observed, and the stored `ETag` hides it. -/
theorem secondStory_hidden :
    ¬ ∀ (svc : ChannelPollService) (ext : Externals) (db : Database)
      (leased : List DiscoveryChannel) (steps : List PollStep) (st : PollState),
      Runs.exec (pollStep svc ext) ⟨db, leased, []⟩ steps = some st → NothingHidden svc ext st := by
  intro h
  have hend : (Runs.exec (storyStep 1 (by decide) sampleStories) ⟨sampleDatabase, [], []⟩
      (storyRun sampleStories)).any (fun st =>
        decide ((sampleCopy, sampleResponse sampleStories) ∈ st.stored) &&
          !decide (ItemObserved (sampleExternals sampleStories) st.db sampleCopy.id
            (storyItem "https://a.in/news/c"))) = true := by decide +kernel
  obtain ⟨st, hst, hfacts⟩ := (Option.any_eq_true _ _).mp hend
  rw [Bool.and_eq_true, decide_eq_true_eq, Bool.not_eq_true', decide_eq_false_iff_not] at hfacts
  obtain ⟨hstored, hmissed⟩ := hfacts
  apply hmissed
  refine h _ _ _ _ _ st hst _ hstored (sampleFeed sampleStories) (ok_of_toOption ?_) _ ?_ ?_
  · decide +kernel
  · exact List.mem_cons_of_mem _ List.mem_cons_self
  · decide +kernel

end Newsintel.Acquisition
