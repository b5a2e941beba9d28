import Newsintel.Acquisition.Collectors

/-!
# Commands of the acquisition service (application/acquisition/dto.py)

The pydantic models that a poll builds. A command carries the constraints of its
fields, so one that breaks them cannot be built: construction raises instead.
`HttpUrl` is a parameter, `none` where it rejects its input.
-/

namespace Newsintel.Acquisition

open PyText

/-- The whitespace that `str_strip_whitespace` strips. -/
def isWhiteSpace (c : Char) : Bool :=
  (9 ≤ c.toNat && c.toNat ≤ 13) ||
    [32, 133, 160, 5760, 8232, 8233, 8239, 8287, 12288].contains c.toNat ||
    (8192 ≤ c.toNat && c.toNat ≤ 8202)

/-- `str_strip_whitespace`. -/
def stripWhitespace (t : Text) : Text :=
  ((t.dropWhile isWhiteSpace).reverse.dropWhile isWhiteSpace).reverse

theorem stripWhitespace_eq_self {t : Text} (h : ∀ c ∈ t, isWhiteSpace c = false) :
    stripWhitespace t = t := by
  have hdrop : ∀ s : Text, (∀ c ∈ s, isWhiteSpace c = false) → s.dropWhile isWhiteSpace = s := by
    intro s hs
    cases s with
    | nil => rfl
    | cons c s => rw [List.dropWhile_cons_of_neg (by simp [hs c List.mem_cons_self])]
  rw [stripWhitespace, hdrop t h, hdrop t.reverse, List.reverse_reverse]
  intro c hc
  exact h c (List.mem_reverse.mp hc)

/-- `Field(max_length=n)` of an optional text. -/
def MaxLength (n : ℕ) (t : Option Text) : Prop := ∀ v ∈ t, v.length ≤ n

instance (n : ℕ) (t : Option Text) : Decidable (MaxLength n t) :=
  inferInstanceAs (Decidable (∀ v ∈ t, v.length ≤ n))

/-- `^[a-fA-F0-9]{64}$`. -/
def Sha256Hex (t : Text) : Prop := t.length = 64 ∧ t.all PyUrl.isHexDigit = true

instance (t : Text) : Decidable (Sha256Hex t) :=
  inferInstanceAs (Decidable (_ ∧ _))

structure ObserveDiscoveryCommand where
  channelId : Uuid
  url : Text
  externalId : Option Text
  title : Option Text
  publishedAt : Option Timestamp
  publishedAtRaw : Option Text
  discoveredAt : Option Timestamp
  channelPosition : Option ℕ
  payloadSha256 : Option Text
  externalId_length : MaxLength 500 externalId
  title_length : MaxLength 1000 title
  publishedAtRaw_length : MaxLength 200 publishedAtRaw
  payloadSha256_hex : ∀ t ∈ payloadSha256, Sha256Hex t
  deriving DecidableEq

/-- The arguments of a constructor call. -/
structure ObserveDiscoveryArguments where
  channelId : Uuid
  url : Text
  externalId : Option Text
  title : Option Text
  publishedAt : Option Timestamp
  publishedAtRaw : Option Text
  discoveredAt : Option Timestamp
  channelPosition : Option ℕ
  payloadSha256 : Option Text

/-- Whether `ObserveDiscoveryCommand(...)` accepts its arguments. -/
structure ObserveDiscoveryArguments.Valid (httpUrl : Text → Option Text)
    (args : ObserveDiscoveryArguments) : Prop where
  url : (httpUrl args.url).isSome = true
  externalId : MaxLength 500 (args.externalId.map stripWhitespace)
  title : MaxLength 1000 (args.title.map stripWhitespace)
  publishedAtRaw : MaxLength 200 (args.publishedAtRaw.map stripWhitespace)
  payloadSha256 : ∀ t ∈ args.payloadSha256.map stripWhitespace, Sha256Hex t

instance (httpUrl : Text → Option Text) (args : ObserveDiscoveryArguments) :
    Decidable (args.Valid httpUrl) :=
  decidable_of_iff
    ((httpUrl args.url).isSome = true ∧ MaxLength 500 (args.externalId.map stripWhitespace) ∧
      MaxLength 1000 (args.title.map stripWhitespace) ∧
      MaxLength 200 (args.publishedAtRaw.map stripWhitespace) ∧
      ∀ t ∈ args.payloadSha256.map stripWhitespace, Sha256Hex t)
    ⟨fun h => ⟨h.1, h.2.1, h.2.2.1, h.2.2.2.1, h.2.2.2.2⟩,
      fun h => ⟨h.url, h.externalId, h.title, h.publishedAtRaw, h.payloadSha256⟩⟩

/-- `ObserveDiscoveryCommand(...)`. -/
def ObserveDiscoveryCommand.build (httpUrl : Text → Option Text)
    (args : ObserveDiscoveryArguments) : Except PyError ObserveDiscoveryCommand :=
  if h : args.Valid httpUrl then
    .ok
      { channelId := args.channelId
        url := (httpUrl args.url).get h.url
        externalId := args.externalId.map stripWhitespace
        title := args.title.map stripWhitespace
        publishedAt := args.publishedAt
        publishedAtRaw := args.publishedAtRaw.map stripWhitespace
        discoveredAt := args.discoveredAt
        channelPosition := args.channelPosition
        payloadSha256 := args.payloadSha256.map stripWhitespace
        externalId_length := h.externalId
        title_length := h.title
        publishedAtRaw_length := h.publishedAtRaw
        payloadSha256_hex := h.payloadSha256 }
  else .error .validationError

theorem ObserveDiscoveryCommand.build_ok {httpUrl : Text → Option Text}
    {args : ObserveDiscoveryArguments} {c : ObserveDiscoveryCommand}
    (h : build httpUrl args = .ok c) : httpUrl args.url = some c.url ∧
      c.channelId = args.channelId := by
  unfold build at h
  split at h
  · cases h
    exact ⟨(Option.some_get _).symm, rfl⟩
  · cases h

/-- `CreateChannelCommand`; `config` is always empty here. -/
structure CreateChannelCommand where
  publisherId : Uuid
  channelType : DiscoveryChannelType
  endpointUrl : Text
  strategyVersion : Text
  pollMinSeconds : ℕ
  pollMaxSeconds : ℕ
  currentPollSeconds : ℕ
  strategyVersion_length : 1 ≤ strategyVersion.length ∧ strategyVersion.length ≤ 100
  pollMinSeconds_range : 15 ≤ pollMinSeconds ∧ pollMinSeconds ≤ 86400
  pollMaxSeconds_range : 30 ≤ pollMaxSeconds ∧ pollMaxSeconds ≤ 604800
  currentPollSeconds_range : 15 ≤ currentPollSeconds ∧ currentPollSeconds ≤ 604800
  /-- `validate_poll_intervals` -/
  intervals : pollMinSeconds ≤ currentPollSeconds ∧ currentPollSeconds ≤ pollMaxSeconds
  deriving DecidableEq

structure CreateChannelArguments where
  publisherId : Uuid
  channelType : DiscoveryChannelType
  endpointUrl : Text
  strategyVersion : Text
  pollMinSeconds : ℕ
  pollMaxSeconds : ℕ
  currentPollSeconds : ℕ

/-- Whether `CreateChannelCommand(...)` accepts its arguments. -/
structure CreateChannelArguments.Valid (httpUrl : Text → Option Text)
    (args : CreateChannelArguments) : Prop where
  endpointUrl : (httpUrl args.endpointUrl).isSome = true
  strategyVersion : 1 ≤ (stripWhitespace args.strategyVersion).length ∧
    (stripWhitespace args.strategyVersion).length ≤ 100
  pollMinSeconds : 15 ≤ args.pollMinSeconds ∧ args.pollMinSeconds ≤ 86400
  pollMaxSeconds : 30 ≤ args.pollMaxSeconds ∧ args.pollMaxSeconds ≤ 604800
  currentPollSeconds : 15 ≤ args.currentPollSeconds ∧ args.currentPollSeconds ≤ 604800
  intervals : args.pollMinSeconds ≤ args.currentPollSeconds ∧
    args.currentPollSeconds ≤ args.pollMaxSeconds

instance (httpUrl : Text → Option Text) (args : CreateChannelArguments) :
    Decidable (args.Valid httpUrl) :=
  decidable_of_iff
    ((httpUrl args.endpointUrl).isSome = true ∧
      (1 ≤ (stripWhitespace args.strategyVersion).length ∧
        (stripWhitespace args.strategyVersion).length ≤ 100) ∧
      (15 ≤ args.pollMinSeconds ∧ args.pollMinSeconds ≤ 86400) ∧
      (30 ≤ args.pollMaxSeconds ∧ args.pollMaxSeconds ≤ 604800) ∧
      (15 ≤ args.currentPollSeconds ∧ args.currentPollSeconds ≤ 604800) ∧
      args.pollMinSeconds ≤ args.currentPollSeconds ∧
      args.currentPollSeconds ≤ args.pollMaxSeconds)
    ⟨fun h => ⟨h.1, h.2.1, h.2.2.1, h.2.2.2.1, h.2.2.2.2.1, h.2.2.2.2.2⟩,
      fun h => ⟨h.endpointUrl, h.strategyVersion, h.pollMinSeconds, h.pollMaxSeconds,
        h.currentPollSeconds, h.intervals⟩⟩

/-- `CreateChannelCommand(...)`. -/
def CreateChannelCommand.build (httpUrl : Text → Option Text) (args : CreateChannelArguments) :
    Except PyError CreateChannelCommand :=
  if h : args.Valid httpUrl then
    .ok
      { publisherId := args.publisherId
        channelType := args.channelType
        endpointUrl := (httpUrl args.endpointUrl).get h.endpointUrl
        strategyVersion := stripWhitespace args.strategyVersion
        pollMinSeconds := args.pollMinSeconds
        pollMaxSeconds := args.pollMaxSeconds
        currentPollSeconds := args.currentPollSeconds
        strategyVersion_length := h.strategyVersion
        pollMinSeconds_range := h.pollMinSeconds
        pollMaxSeconds_range := h.pollMaxSeconds
        currentPollSeconds_range := h.currentPollSeconds
        intervals := h.intervals }
  else .error .validationError

end Newsintel.Acquisition
