import Luminosity.Host.Calls

/-!
# The fetcher

The fetcher asks for an asset over https.  A server may redirect it, and the
client then asks a policy what to do: a redirect to a host of the release is
followed, up to a limit, and any other one is taken for the answer.  Answers
which say that another attempt may succeed are followed by one.

The scheme is checked on the first location alone.  Every request after it
goes to a host of the release, and no attempt follows more redirects than the
limit, but a redirect to such a host is followed whatever its scheme is.
-/

namespace Luminosity.Launch.Fetch

open Luminosity.Foundation.TextSegments
open Luminosity.Host.Calls

/-! ## Locations -/

/-- A location, as the client reads it. -/
structure Url where
  scheme : Text
  host : Option Text
  path : Text
deriving DecidableEq, Repr

def maxAttempts : Nat := 3

def maxRedirects : Nat := 10

def cdnHostSuffix : Text :=
  ".githubusercontent.com".toList

def releaseOriginHost : Text :=
  "github.com".toList

/-- `is_allowed_redirect_host`. -/
def isAllowedRedirectHost (host : Text) : Bool :=
  host = releaseOriginHost || cdnHostSuffix.isSuffixOf host

def httpsScheme : Text :=
  "https".toList

/-- `is_https`: a check of the text. -/
def isHttps (url : Text) : Bool :=
  "https://".toList.isPrefixOf url

/-! ## The client -/

/-- What the policy says about a redirect. -/
inductive Action
  | follow
  | stop
  | error (message : Text)
deriving DecidableEq, Repr

/-- `redirect_policy`: whether to go on, given the locations asked so far. -/
def redirectPolicy (previous : List Url) (next : Url) : Action :=
  if maxRedirects < previous.length then
    .error "too many redirects".toList
  else
    match next.host with
    | some host => if isAllowedRedirectHost host then .follow else .stop
    | none => .stop

/-- A response: its status, and its body as far as it can be read. -/
structure Response where
  status : Nat
  body : Except Text Bytes
deriving DecidableEq

/-- The statuses which redirect. -/
inductive RedirectStatus
  | movedPermanently
  | found
  | seeOther
  | temporaryRedirect
  | permanentRedirect
deriving DecidableEq, Repr

def RedirectStatus.code : RedirectStatus → Nat
  | .movedPermanently => 301
  | .found => 302
  | .seeOther => 303
  | .temporaryRedirect => 307
  | .permanentRedirect => 308

/-- What comes back of a request. -/
inductive Reply
  | failed (detail : Text)
  | redirect (status : RedirectStatus) (next : Url) (body : Except Text Bytes)
  | answer (response : Response)
deriving DecidableEq

/-- Why the client has no response. -/
inductive SendError
  | invalidUrl (detail : Text)
  | transport (detail : Text)
  | redirectRefused (message : Text)
deriving DecidableEq, Repr

theorem length_le_of_follow
    {previous : List Url} {next : Url}
    (follows : redirectPolicy previous next = .follow) :
    previous.length ≤ maxRedirects := by
  unfold redirectPolicy at follows
  split_ifs at follows with many
  exact Nat.not_lt.mp many

/--
Ask for a location, and follow redirects as the policy says.  The server's
replies are indexed by the redirects followed before.
-/
def sendFrom (replies : Nat → Reply) (previous : List Url) (url : Url) :
    List Url × Except SendError Response :=
  match replies previous.length with
  | .failed detail => ([url], .error (.transport detail))
  | .answer response => ([url], .ok response)
  | .redirect status next body =>
      match _decided : redirectPolicy (previous ++ [url]) next with
      | .error message => ([url], .error (.redirectRefused message))
      | .stop => ([url], .ok { status := status.code, body := body })
      | .follow =>
          let sent := sendFrom replies (previous ++ [url]) next
          (url :: sent.1, sent.2)
termination_by maxRedirects + 1 - previous.length
decreasing_by
  have bounded := length_le_of_follow _decided
  simp only [List.length_append, List.length_singleton] at bounded ⊢
  omega

/-! ## Attempts -/

/-- What the client's libraries make of texts, errors and statuses. -/
structure Libraries where
  parse : Text → Except Text Url
  describe : SendError → Text
  statusText : Nat → Text

/-- A location which starts with the scheme is read with it. -/
def Libraries.Lawful (libraries : Libraries) : Prop :=
  ∀ text url,
    isHttps text = true → libraries.parse text = .ok url →
      url.scheme = httpsScheme

inductive Terminal
  | notFound
  | retryable (detail : Text)
deriving DecidableEq, Repr

section Attempts

variable (libraries : Libraries)

/-- What an attempt makes of what the client brings back. -/
def conclude : Except SendError Response → Except Terminal Bytes
  | .error failure => .error (.retryable (libraries.describe failure))
  | .ok response =>
      if response.status = 404 then
        .error .notFound
      else if 500 ≤ response.status ∧ response.status < 600 then
        .error (.retryable
          ("server error ".toList ++ libraries.statusText response.status))
      else if ¬ (200 ≤ response.status ∧ response.status < 300) then
        .error (.retryable
          ("unexpected status ".toList ++
            libraries.statusText response.status))
      else
        match response.body with
        | .ok bytes => .ok bytes
        | .error detail => .error (.retryable detail)

/-- `Fetcher::try_get`, with the requests which it issues. -/
def tryGet (replies : Nat → Reply) (url : Text) :
    List Url × Except Terminal Bytes :=
  match libraries.parse url with
  | .error detail =>
      ([], conclude libraries (.error (.invalidUrl detail)))
  | .ok start =>
      let sent := sendFrom replies [] start
      (sent.1, conclude libraries sent.2)

/-- The attempts from one on, with the last detail so far. -/
def attempts (server : Nat → Nat → Reply) (url : Text) :
    (last : Text) → (attempt remaining : Nat) →
      List (List Url) × Except FetchError Bytes
  | last, _, 0 => ([], .error (.unreachable last))
  | _, attempt, remaining + 1 =>
      let tried := tryGet libraries (server attempt) url
      match tried.2 with
      | .ok bytes => ([tried.1], .ok bytes)
      | .error .notFound => ([tried.1], .error .notFound)
      | .error (.retryable detail) =>
          let later := attempts server url detail (attempt + 1) remaining
          (tried.1 :: later.1, later.2)

end Attempts

/-- A fetcher.  How long it waits between attempts decides no request. -/
structure Fetcher where
  maxAttempts : Nat
  requireHttps : Bool
deriving DecidableEq, Repr

namespace Fetcher

/-- `Fetcher::build`. -/
def build (requireHttps : Bool) : Fetcher where
  maxAttempts := Fetch.maxAttempts
  requireHttps := requireHttps

/-- `Fetcher::new`: the production fetcher. -/
def new : Fetcher :=
  build true

/-- `Fetcher::with_backoff`: the fetcher of the tests. -/
def withBackoff : Fetcher :=
  build false

/-- `Fetcher::get`, with the requests of each of its attempts. -/
def get
    (libraries : Libraries) (fetcher : Fetcher)
    (server : Nat → Nat → Reply) (url : Text) :
    List (List Url) × Except FetchError Bytes :=
  if fetcher.requireHttps && !isHttps url then
    ([], .error (.unreachable
      ("refusing non-https URL (scheme not permitted): ".toList ++ url)))
  else
    attempts libraries server url [] 0 fetcher.maxAttempts

end Fetcher

/-! ## What one attempt asks for -/

/-- The policy follows the redirect to the location at a hop. -/
def Follows (replies : Nat → Reply) (hop : Nat) (next : Url) : Prop :=
  hop < maxRedirects ∧
    (∃ status body, replies hop = .redirect status next body) ∧
      ∃ host, next.host = some host ∧ isAllowedRedirectHost host = true

/-- The locations to which the client is redirected from a hop on. -/
inductive Followed (replies : Nat → Reply) : Nat → List Url → Prop
  | rests (hop : Nat)
      (rests : ∀ next, ¬ Follows replies hop next) :
      Followed replies hop []
  | follows (hop : Nat) (next : Url) (targets : List Url)
      (follows : Follows replies hop next)
      (later : Followed replies (hop + 1) targets) :
      Followed replies hop (next :: targets)

/-- What the client brings back of a hop at which it rests. -/
def settle (replies : Nat → Reply) (hop : Nat) :
    Except SendError Response :=
  match replies hop with
  | .failed detail => .error (.transport detail)
  | .answer response => .ok response
  | .redirect status _ body =>
      if hop < maxRedirects then
        .ok { status := status.code, body := body }
      else
        .error (.redirectRefused "too many redirects".toList)

/-- The policy follows exactly to the hosts of the release, up to the limit. -/
theorem redirectPolicy_follow_iff (previous : List Url) (next : Url) :
    redirectPolicy previous next = .follow ↔
      previous.length ≤ maxRedirects ∧
        ∃ host, next.host = some host ∧
          isAllowedRedirectHost host = true := by
  unfold redirectPolicy
  split_ifs with many
  · simp only [false_iff, not_and]
    intro few
    exact absurd many (Nat.not_lt.mpr few)
  · rw [Nat.not_lt] at many
    cases next.host with
    | none => simp
    | some host =>
        simp only [many, true_and, Option.some.injEq, exists_eq_left']
        split_ifs with allowed
        · simp [allowed]
        · simp [allowed]

theorem Follows.unique
    {replies : Nat → Reply} {hop : Nat} {first second : Url}
    (follows : Follows replies hop first)
    (others : Follows replies hop second) :
    first = second := by
  rcases follows with ⟨_, ⟨status, body, replied⟩, _⟩
  rcases others with ⟨_, ⟨otherStatus, otherBody, otherwise⟩, _⟩
  rw [replied] at otherwise
  cases otherwise
  rfl

theorem Followed.length_le
    {replies : Nat → Reply} {hop : Nat} {targets : List Url}
    (followed : Followed replies hop targets) :
    targets.length ≤ maxRedirects - hop := by
  induction followed with
  | rests => exact Nat.zero_le _
  | follows hop next targets follows later induction =>
      have below := follows.1
      rw [List.length_cons]
      omega

/-- The locations are those of the redirects followed one after another. -/
theorem Followed.mem_iff
    {replies : Nat → Reply} {hop : Nat} {targets : List Url}
    (followed : Followed replies hop targets) (url : Url) :
    url ∈ targets ↔
      ∃ last, hop ≤ last ∧
        (∀ between, hop ≤ between → between < last →
          ∃ next, Follows replies between next) ∧
          Follows replies last url := by
  induction followed with
  | rests hop rests =>
      simp only [List.not_mem_nil, false_iff]
      rintro ⟨last, from_, before, follows⟩
      rcases Nat.eq_or_lt_of_le from_ with rfl | later
      · exact rests url follows
      · rcases before hop (Nat.le_refl hop) later with ⟨next, first⟩
        exact rests next first
  | follows hop next targets follows later induction =>
      rw [List.mem_cons, induction]
      constructor
      · rintro (rfl | ⟨last, from_, before, target⟩)
        · refine ⟨hop, Nat.le_refl hop, ?_, follows⟩
          intro between atLeast below
          exact absurd below (Nat.not_lt.mpr atLeast)
        · refine ⟨last, Nat.le_of_succ_le from_, ?_, target⟩
          intro between atLeast below
          rcases Nat.eq_or_lt_of_le atLeast with rfl | above
          · exact ⟨next, follows⟩
          · exact before between above below
      · rintro ⟨last, from_, before, target⟩
        rcases Nat.eq_or_lt_of_le from_ with rfl | above
        · exact Or.inl (target.unique follows)
        · right
          refine ⟨last, above, ?_, target⟩
          intro between atLeast below
          exact before between (Nat.le_of_succ_le atLeast) below

/-- The hop after the last redirect followed is the only one at rest. -/
theorem Followed.rest_unique
    {replies : Nat → Reply} {hop last : Nat} {targets : List Url}
    (followed : Followed replies hop targets)
    (from_ : hop ≤ last)
    (before : ∀ between, hop ≤ between → between < last →
      ∃ next, Follows replies between next)
    (rests : ∀ next, ¬ Follows replies last next) :
    last = hop + targets.length := by
  induction followed with
  | rests hop restsHere =>
      rcases Nat.eq_or_lt_of_le from_ with equal | above
      · exact equal.symm
      · rcases before hop (Nat.le_refl hop) above with ⟨next, first⟩
        exact absurd first (restsHere next)
  | follows hop next targets follows later induction =>
      rcases Nat.eq_or_lt_of_le from_ with rfl | above
      · exact absurd follows (rests next)
      · rw [induction above
          (fun between atLeast =>
            before between (Nat.le_of_succ_le atLeast)),
          List.length_cons]
        omega

theorem Followed.follows_before
    {replies : Nat → Reply} {hop : Nat} {targets : List Url}
    (followed : Followed replies hop targets) :
    ∀ between, hop ≤ between → between < hop + targets.length →
      ∃ next, Follows replies between next := by
  induction followed with
  | rests hop rests =>
      intro between atLeast below
      exact absurd below (Nat.not_lt.mpr atLeast)
  | follows hop next targets follows later induction =>
      intro between atLeast below
      rcases Nat.eq_or_lt_of_le atLeast with rfl | above
      · exact ⟨next, follows⟩
      · apply induction between above
        rw [List.length_cons] at below
        omega

theorem Followed.rests_at
    {replies : Nat → Reply} {hop : Nat} {targets : List Url}
    (followed : Followed replies hop targets) :
    ∀ next, ¬ Follows replies (hop + targets.length) next := by
  induction followed with
  | rests hop rests => exact rests
  | follows hop next targets follows later induction =>
      rw [List.length_cons, Nat.add_comm targets.length 1,
        ← Nat.add_assoc]
      exact induction

theorem redirectPolicy_error
    {previous : List Url} {next : Url} {message : Text}
    (decided : redirectPolicy previous next = .error message) :
    maxRedirects < previous.length ∧
      message = "too many redirects".toList := by
  unfold redirectPolicy at decided
  split_ifs at decided with many
  · cases decided
    exact ⟨many, rfl⟩
  · split at decided
    · split_ifs at decided
    · cases decided

theorem length_le_of_stop
    {previous : List Url} {next : Url}
    (decided : redirectPolicy previous next = .stop) :
    previous.length ≤ maxRedirects := by
  unfold redirectPolicy at decided
  split_ifs at decided with many
  exact Nat.not_lt.mp many

/-- The redirect of a hop is followed when the policy says so. -/
theorem follows_iff_decided
    {replies : Nat → Reply} {previous : List Url}
    {status : RedirectStatus} {next : Url} {body : Except Text Bytes}
    (redirects : replies previous.length = .redirect status next body)
    (url other : Url) :
    Follows replies previous.length other ↔
      other = next ∧
        redirectPolicy (previous ++ [url]) next = .follow := by
  rw [redirectPolicy_follow_iff, List.length_append,
    List.length_singleton]
  constructor
  · rintro ⟨below, ⟨_, _, replied⟩, allowed⟩
    rw [redirects] at replied
    cases replied
    exact ⟨rfl, below, allowed⟩
  · rintro ⟨rfl, below, allowed⟩
    exact ⟨below, ⟨status, body, redirects⟩, allowed⟩

/-- The client asks for a location and for those it is redirected to. -/
theorem sendFrom_spec
    (replies : Nat → Reply) (previous : List Url) (url : Url) :
    ∃ targets,
      sendFrom replies previous url =
          (url :: targets,
            settle replies (previous.length + targets.length)) ∧
        Followed replies previous.length targets := by
  -- Where the client rests, it has asked for the location alone.
  have rest : ∀ {previous : List Url} {url : Url}
      {result : Except SendError Response},
      settle replies previous.length = result →
        (∀ next, ¬ Follows replies previous.length next) →
          ∃ targets,
            ([url], result) =
                (url :: targets,
                  settle replies (previous.length + targets.length)) ∧
              Followed replies previous.length targets := by
    rintro previous url result rfl rests
    exact ⟨[], rfl, .rests previous.length rests⟩
  fun_induction sendFrom replies previous url with
  | case1 previous url detail failed =>
      apply rest
      · rw [settle, failed]
      · rintro next ⟨_, ⟨status, body, redirects⟩, _⟩
        rw [failed] at redirects
        cases redirects
  | case2 previous url response answered =>
      apply rest
      · rw [settle, answered]
      · rintro next ⟨_, ⟨status, body, redirects⟩, _⟩
        rw [answered] at redirects
        cases redirects
  | case3 previous url status next body redirects message decided =>
      apply rest
      · rcases redirectPolicy_error decided with ⟨many, rfl⟩
        rw [List.length_append, List.length_singleton] at many
        simp only [settle, redirects]
        rw [if_neg (Nat.not_lt.mpr (Nat.le_of_lt_succ many))]
      · intro other follows
        rw [(follows_iff_decided redirects url other).mp follows |>.2]
          at decided
        cases decided
  | case4 previous url status next body redirects decided =>
      apply rest
      · have few := length_le_of_stop decided
        rw [List.length_append, List.length_singleton] at few
        simp only [settle, redirects]
        rw [if_pos (Nat.lt_of_succ_le few)]
      · intro other follows
        rw [(follows_iff_decided redirects url other).mp follows |>.2]
          at decided
        cases decided
  | case5 previous url status next body redirects decided sent induction =>
      have follows :=
        (follows_iff_decided redirects url next).mpr ⟨rfl, decided⟩
      rcases induction with ⟨targets, sends, followed⟩
      rw [List.length_append, List.length_singleton] at sends followed
      refine ⟨next :: targets, ?_, .follows _ next targets follows followed⟩
      change (url :: (sendFrom replies (previous ++ [url]) next).1,
        (sendFrom replies (previous ++ [url]) next).2) = _
      rw [sends, List.length_cons, Nat.add_assoc, Nat.add_comm 1]

/-! ## Which attempts are made -/

/-- Another attempt may succeed after the reply. -/
def Reply.Transient : Reply → Prop
  | .failed _ => True
  | .redirect _ _ _ => True
  | .answer response =>
      response.status ≠ 404 ∧
        (200 ≤ response.status ∧ response.status < 300 →
          ∃ detail, response.body = .error detail)

/-- The reply at which an attempt rests asks for another one. -/
def Retries (replies : Nat → Reply) : Prop :=
  ∃ hop,
    (∀ earlier < hop, ∃ next, Follows replies earlier next) ∧
      (∀ next, ¬ Follows replies hop next) ∧ (replies hop).Transient

/-- An attempt asks for another one after a transient reply. -/
theorem conclude_settle
    (libraries : Libraries) (replies : Nat → Reply) (hop : Nat) :
    (∃ detail,
        conclude libraries (settle replies hop) =
          .error (.retryable detail)) ↔
      (replies hop).Transient := by
  rw [settle]
  cases replies hop with
  | failed detail => simp [Reply.Transient, conclude]
  | redirect status next body =>
      simp only [Reply.Transient, iff_true]
      split_ifs
      · cases status <;> exact ⟨_, rfl⟩
      · exact ⟨_, rfl⟩
  | answer response =>
      simp only [Reply.Transient, conclude]
      split_ifs with missing broken refused
      · simp [missing]
      · simp only [Except.error.injEq, Terminal.retryable.injEq,
          exists_eq', true_iff]
        omega
      · cases response.body with
        | ok bytes => simp [refused]
        | error detail => simp [missing]
      · simp [missing, refused]

/-- What an attempt asks for, and when it asks for another one. -/
theorem tryGet_spec
    (libraries : Libraries) (replies : Nat → Reply)
    {url : Text} {start : Url}
    (parses : libraries.parse url = .ok start) :
    ∃ targets,
      (tryGet libraries replies url).1 = start :: targets ∧
        Followed replies 0 targets ∧
          ((∃ detail,
              (tryGet libraries replies url).2 =
                .error (.retryable detail)) ↔
            Retries replies) := by
  rcases sendFrom_spec replies [] start with ⟨targets, sends, followed⟩
  rw [List.length_nil] at followed
  rw [List.length_nil, Nat.zero_add] at sends
  rw [tryGet, parses]
  simp only [sends]
  refine ⟨targets, rfl, followed, ?_⟩
  rw [conclude_settle]
  constructor
  · intro transient
    refine ⟨targets.length, ?_, ?_, transient⟩
    · intro earlier below
      rw [← Nat.zero_add targets.length] at below
      exact followed.follows_before earlier (Nat.zero_le earlier) below
    · simpa using followed.rests_at
  · rintro ⟨hop, before, rests, transient⟩
    have last :=
      followed.rest_unique (Nat.zero_le hop)
        (fun between _ => before between) rests
    rw [Nat.zero_add] at last
    exact last ▸ transient

/-- The attempt asks for another one. -/
def AsksAgain
    (libraries : Libraries) (replies : Nat → Reply) (url : Text) : Prop :=
  ∃ detail, (tryGet libraries replies url).2 = .error (.retryable detail)

/-- The attempts made: those before which every attempt asks for another. -/
theorem mem_attempts
    (libraries : Libraries) (server : Nat → Nat → Reply) (url : Text)
    (last : Text) (attempt remaining : Nat) (requests : List Url) :
    requests ∈
        (attempts libraries server url last attempt remaining).1 ↔
      ∃ made, attempt ≤ made ∧ made < attempt + remaining ∧
        (∀ earlier, attempt ≤ earlier → earlier < made →
          AsksAgain libraries (server earlier) url) ∧
          requests = (tryGet libraries (server made) url).1 := by
  induction remaining generalizing last attempt with
  | zero =>
      simp only [attempts, List.not_mem_nil, Nat.add_zero, false_iff]
      rintro ⟨made, atLeast, below, _⟩
      exact absurd below (Nat.not_lt.mpr atLeast)
  | succ remaining induction =>
      -- The attempt at hand is always made, and the later ones after it.
      have here :
          (∃ made, attempt ≤ made ∧ made < attempt + (remaining + 1) ∧
              (∀ earlier, attempt ≤ earlier → earlier < made →
                AsksAgain libraries (server earlier) url) ∧
                requests = (tryGet libraries (server made) url).1) ↔
            requests = (tryGet libraries (server attempt) url).1 ∨
              (AsksAgain libraries (server attempt) url ∧
                ∃ made, attempt + 1 ≤ made ∧
                  made < attempt + 1 + remaining ∧
                    (∀ earlier, attempt + 1 ≤ earlier → earlier < made →
                      AsksAgain libraries (server earlier) url) ∧
                      requests =
                        (tryGet libraries (server made) url).1) := by
        constructor
        · rintro ⟨made, atLeast, below, before, equal⟩
          rcases Nat.eq_or_lt_of_le atLeast with rfl | above
          · exact Or.inl equal
          · right
            refine ⟨before attempt (Nat.le_refl attempt) above, made, above,
              by omega, ?_, equal⟩
            intro earlier later
            exact before earlier (Nat.le_of_succ_le later)
        · rintro (equal | ⟨again, made, above, below, before, equal⟩)
          · refine ⟨attempt, Nat.le_refl attempt, by omega, ?_, equal⟩
            intro earlier atLeast less
            exact absurd less (Nat.not_lt.mpr atLeast)
          · refine ⟨made, Nat.le_of_succ_le above, by omega, ?_, equal⟩
            intro earlier atLeast less
            rcases Nat.eq_or_lt_of_le atLeast with rfl | later
            · exact again
            · exact before earlier later less
      rw [here, attempts]
      simp only [AsksAgain] at induction ⊢
      cases outcome : (tryGet libraries (server attempt) url).2 with
      | ok bytes => simp
      | error failure =>
          cases failure with
          | notFound => simp
          | retryable detail =>
              simp only [List.mem_cons, induction, Except.error.injEq,
                Terminal.retryable.injEq, exists_eq', true_and]

/-! ## The pin on the scheme -/

/--
Every request is over https, every request after the first of an attempt is
to a host of the release, and no attempt follows more redirects than the
limit.
-/
def Pinned (requests : List (List Url)) : Prop :=
  ∀ attempt ∈ requests,
    (∀ url ∈ attempt, url.scheme = httpsScheme) ∧
      (∀ url ∈ attempt.tail, ∃ host,
        url.host = some host ∧ isAllowedRedirectHost host = true) ∧
        attempt.tail.length ≤ maxRedirects

/--
In an attempt which is made, a redirect of a location which is asked for leads
to a host of the release by another scheme, within the limit.
-/
def Downgrades
    (libraries : Libraries) (fetcher : Fetcher)
    (server : Nat → Nat → Reply) (url : Text) : Prop :=
  isHttps url = true ∧ (∃ start, libraries.parse url = .ok start) ∧
    ∃ attempt < fetcher.maxAttempts,
      (∀ earlier < attempt, Retries (server earlier)) ∧
        ∃ hop next,
          (∀ earlier < hop, ∃ between,
            Follows (server attempt) earlier between) ∧
            Follows (server attempt) hop next ∧
              next.scheme ≠ httpsScheme

/-- An attempt whose location cannot be read asks for nothing. -/
theorem tryGet_invalid
    (libraries : Libraries) (replies : Nat → Reply)
    {url detail : Text}
    (invalid : libraries.parse url = .error detail) :
    (tryGet libraries replies url).1 = [] := by
  rw [tryGet, invalid]

/-- An attempt keeps the pin but for the schemes it is redirected to. -/
theorem pinned_attempt_iff
    {replies : Nat → Reply} {start : Url} {targets : List Url}
    (secure : start.scheme = httpsScheme)
    (followed : Followed replies 0 targets) :
    Pinned [start :: targets] ↔
      ¬ ∃ hop next,
        (∀ earlier < hop, ∃ between, Follows replies earlier between) ∧
          Follows replies hop next ∧ next.scheme ≠ httpsScheme := by
  have asked : ∀ next, next ∈ targets ↔
      ∃ hop,
        (∀ earlier < hop, ∃ between, Follows replies earlier between) ∧
          Follows replies hop next := by
    intro next
    rw [followed.mem_iff]
    simp only [Nat.zero_le, true_and, forall_const]
  rw [Pinned, List.forall_mem_singleton]
  constructor
  · rintro ⟨schemes, _⟩ ⟨hop, next, before, follows, other⟩
    have member := (asked next).mpr ⟨hop, before, follows⟩
    exact other (schemes next (List.mem_cons_of_mem start member))
  · intro keeps
    refine ⟨?_, ?_, ?_⟩
    · intro url member
      rcases List.mem_cons.mp member with rfl | member
      · exact secure
      · rcases (asked url).mp member with ⟨hop, before, follows⟩
        by_contra other
        exact keeps ⟨hop, url, before, follows, other⟩
    · intro url member
      rcases (asked url).mp member with ⟨hop, _, follows⟩
      exact follows.2.2
    · exact followed.length_le

/-- A location which cannot be read is never asked for. -/
theorem pinned_attempts_invalid
    {libraries : Libraries} (server : Nat → Nat → Reply)
    {url detail : Text} (invalid : libraries.parse url = .error detail)
    (maxAttempts : Nat) :
    Pinned (attempts libraries server url [] 0 maxAttempts).1 := by
  intro attempt member
  rcases (mem_attempts _ _ _ _ _ _ _).mp member with ⟨made, _, _, _, rfl⟩
  rw [tryGet_invalid libraries _ invalid]
  exact ⟨by simp, by simp, Nat.zero_le _⟩

/-- The attempts keep the pin but for the schemes they are redirected to. -/
theorem pinned_attempts_iff
    {libraries : Libraries} (server : Nat → Nat → Reply)
    {url : Text} {start : Url} (parses : libraries.parse url = .ok start)
    (secure : start.scheme = httpsScheme) (maxAttempts : Nat) :
    Pinned (attempts libraries server url [] 0 maxAttempts).1 ↔
      ¬ ∃ attempt < maxAttempts,
        (∀ earlier < attempt, Retries (server earlier)) ∧
          ∃ hop next,
            (∀ earlier < hop, ∃ between,
              Follows (server attempt) earlier between) ∧
              Follows (server attempt) hop next ∧
                next.scheme ≠ httpsScheme := by
  have again : ∀ replies,
      AsksAgain libraries replies url ↔ Retries replies := by
    intro replies
    rcases tryGet_spec libraries replies parses with ⟨_, _, _, retries⟩
    exact retries
  constructor
  · rintro pinned ⟨attempt, below, before, leak⟩
    rcases tryGet_spec libraries (server attempt) parses with
      ⟨targets, asks, followed, _⟩
    have made :=
      (mem_attempts libraries server url [] 0 maxAttempts
        (start :: targets)).mpr
        ⟨attempt, Nat.zero_le attempt, by omega,
          fun earlier _ less => (again _).mpr (before earlier less),
          asks.symm⟩
    have alone : Pinned [start :: targets] := by
      rw [Pinned, List.forall_mem_singleton]
      exact pinned _ made
    exact (pinned_attempt_iff secure followed).mp alone leak
  · intro keeps requests member
    rcases (mem_attempts _ _ _ _ _ _ _).mp member with
      ⟨made, atLeast, below, before, rfl⟩
    rcases tryGet_spec libraries (server made) parses with
      ⟨targets, asks, followed, _⟩
    rw [asks]
    have alone : Pinned [start :: targets] := by
      rw [pinned_attempt_iff secure followed]
      intro leak
      exact keeps ⟨made, by omega,
        fun earlier less =>
          (again _).mp (before earlier (Nat.zero_le earlier) less),
        leak⟩
    exact alone _ (List.mem_singleton.mpr rfl)

/--
The production fetcher keeps to https and to the hosts of the release exactly
when no server it asks downgrades it.
-/
theorem pinned_iff
    {libraries : Libraries} (lawful : libraries.Lawful)
    (server : Nat → Nat → Reply) (url : Text) :
    Pinned (Fetcher.new.get libraries server url).1 ↔
      ¬ Downgrades libraries Fetcher.new server url := by
  unfold Fetcher.get
  cases https : isHttps url with
  | false =>
      have refused :
          (Fetcher.new.requireHttps && !false) = true := rfl
      rw [if_pos refused]
      constructor
      · rintro _ ⟨secure, _⟩
        rw [https] at secure
        cases secure
      · intro _ attempt member
        cases member
  | true =>
      have admitted :
          ¬ (Fetcher.new.requireHttps && !true) = true := by
        rintro ⟨⟩
      rw [if_neg admitted]
      cases parses : libraries.parse url with
      | error detail =>
          apply iff_of_true (pinned_attempts_invalid server parses _)
          rintro ⟨_, ⟨start, valid⟩, _⟩
          rw [parses] at valid
          cases valid
      | ok start =>
          have secure := lawful url start https parses
          rw [pinned_attempts_iff server parses secure]
          constructor
          · rintro keeps ⟨_, _, leaks⟩
            exact keeps leaks
          · intro keeps leaks
            exact keeps ⟨https, ⟨start, parses⟩, leaks⟩

/-! ## A server which downgrades -/

/-- Libraries which read a location at its first separators. -/
def smallLibraries : Libraries where
  parse text :=
    if isHttps text then
      let rest := text.drop "https://".length
      .ok
        { scheme := httpsScheme
          host := some (rest.takeWhile (· ≠ '/'))
          path := rest.dropWhile (· ≠ '/') }
    else
      .error "relative URL without a base".toList
  describe
    | .invalidUrl detail => "builder error: ".toList ++ detail
    | .transport detail => "error sending request: ".toList ++ detail
    | .redirectRefused message =>
        "error following redirect: ".toList ++ message
  statusText := decimal

theorem smallLibraries_lawful : smallLibraries.Lawful := by
  intro text url secure parses
  simp only [smallLibraries, secure, if_pos] at parses
  cases parses
  rfl

/-- A server which redirects the first request to plain http. -/
def downgradingServer : Nat → Nat → Reply
  | _, 0 =>
      .redirect .found
        { scheme := "http".toList
          host := some releaseOriginHost
          path := "/asset".toList }
        (.ok [])
  | _, _ => .answer { status := 200, body := .ok [] }

theorem pinned_iff_small :
    Pinned
        (Fetcher.new.get smallLibraries downgradingServer
          "https://github.com/asset".toList).1 ↔
      ¬ Downgrades smallLibraries Fetcher.new downgradingServer
        "https://github.com/asset".toList :=
  pinned_iff smallLibraries_lawful downgradingServer _

/-- A redirect to the release's host by http is followed. -/
theorem http_redirect_followed :
    smallLibraries.Lawful ∧
      (Fetcher.new.get smallLibraries downgradingServer
        "https://github.com/asset".toList).1 =
        [[⟨httpsScheme, some releaseOriginHost, "/asset".toList⟩,
          ⟨"http".toList, some releaseOriginHost, "/asset".toList⟩]] ∧
        ¬ Pinned
          (Fetcher.new.get smallLibraries downgradingServer
            "https://github.com/asset".toList).1 := by
  refine ⟨smallLibraries_lawful, ?_⟩
  have requests :
      (Fetcher.new.get smallLibraries downgradingServer
        "https://github.com/asset".toList).1 =
        [[⟨httpsScheme, some releaseOriginHost, "/asset".toList⟩,
          ⟨"http".toList, some releaseOriginHost, "/asset".toList⟩]] := by
    decide +kernel
  rw [requests]
  refine ⟨rfl, ?_⟩
  intro pinned
  have schemes := (pinned _ (List.mem_singleton.mpr rfl)).1
  have plain :=
    schemes _ (List.mem_cons_of_mem _ (List.mem_singleton.mpr rfl))
  exact absurd plain (by decide)

end Luminosity.Launch.Fetch
