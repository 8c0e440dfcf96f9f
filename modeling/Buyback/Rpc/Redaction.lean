import Buyback.Source.Endpoint

/-!
# Errors without credentials

Which errors of a connection are the same for two endpoints of one host.  The header and
the transport errors say no more than the scheme and the host.  The two errors about the
URL itself print all of it, so they are the same for the same URL only.
-/

namespace Buyback

variable {url url' : String} {ep ep' : Endpoint}

/-- The parts of a URL `scheme://[userinfo@]host[suffix]`. -/
structure UrlParts where
  scheme : List Char
  userinfo : Option (List Char)
  host : List Char
  suffix : List Char
  scheme_free : ':' ∉ scheme
  userinfo_free : ∀ user ∈ userinfo, ∀ c ∈ user, c ∉ hostEnds
  host_free : ∀ c ∈ host, c ∉ '@' :: hostEnds
  suffix_starts : ∀ c ∈ suffix.head?, c ∈ hostEnds

namespace UrlParts

/-- The host with the user info before it. -/
def authority (u : UrlParts) : List Char :=
  match u.userinfo with
  | none => u.host
  | some user => user ++ '@' :: u.host

def text (u : UrlParts) : String :=
  String.ofList (u.scheme ++ (schemeEnd ++ (u.authority ++ u.suffix)))

def redacted (u : UrlParts) : String := String.ofList (u.scheme ++ schemeEnd ++ u.host)

theorem authority_free (u : UrlParts) : ∀ c ∈ u.authority, c ∉ hostEnds := by
  have hhost : ∀ c ∈ u.host, c ∉ hostEnds :=
    fun c hc => List.not_mem_of_not_mem_cons (u.host_free c hc)
  unfold authority
  split
  next => exact hhost
  next user huser =>
    intro c hc
    rcases List.mem_append.mp hc with hc | hc
    · exact u.userinfo_free user huser c hc
    · rcases List.mem_cons.mp hc with rfl | hc
      · decide
      · exact hhost c hc

/-- The host ends at the suffix. -/
theorem takeWhile_rest (u : UrlParts) :
    (u.authority ++ u.suffix).takeWhile (· ∉ hostEnds) = u.authority := by
  have hsuffix : u.suffix.takeWhile (· ∉ hostEnds) = [] := by
    cases h : u.suffix with
    | nil => rfl
    | cons c cs =>
        have hc := u.suffix_starts c (by rw [h]; rfl)
        exact List.takeWhile_cons_of_neg (by simpa using hc)
  rw [List.takeWhile_append_of_pos (by simpa using u.authority_free), hsuffix, List.append_nil]

/-- The host begins behind the last `@`. -/
theorem rtakeWhile_authority (u : UrlParts) : u.authority.rtakeWhile (· ≠ '@') = u.host := by
  have hhost : ∀ c ∈ u.host.reverse, decide (c ≠ '@') = true := by
    intro c hc
    rw [decide_eq_true_iff]
    exact List.ne_of_not_mem_cons (u.host_free c (List.mem_reverse.mp hc))
  unfold authority
  split
  next => exact List.rtakeWhile_eq_self_iff.mpr (by simpa using hhost)
  next user _ =>
    rw [List.rtakeWhile, List.reverse_append, List.reverse_cons, List.append_assoc,
      List.takeWhile_append_of_pos hhost, List.singleton_append,
      List.takeWhile_cons_of_neg (by decide), List.append_nil, List.reverse_reverse]

/-- The redacted URL has the scheme and the host. -/
theorem redactUrl_text (u : UrlParts) : redactUrl u.text = u.redacted := by
  have honce : Split.once schemeEnd (u.scheme ++ (schemeEnd ++ (u.authority ++ u.suffix))) =
      some (u.scheme, u.authority ++ u.suffix) := Split.once_append u.scheme_free
  rw [redactUrl, text, String.toList_ofList, honce]
  dsimp only
  rw [takeWhile_rest, rtakeWhile_authority, redacted]

end UrlParts

/-! ## The checks -/

section

variable [StdTexts]

theorem badUrl_inj : badUrl url = badUrl url' ↔ url = url' := by
  refine ⟨fun h => debugStr_inj ?_, congrArg _⟩
  exact String.append_right_inj _ |>.mp (Error.config.inj h)

theorem plaintextUrl_inj : plaintextUrl url = plaintextUrl url' ↔ url = url' := by
  refine ⟨fun h => debugStr_inj ?_, congrArg _⟩
  exact String.append_right_inj _ |>.mp (String.append_left_inj _ |>.mp (Error.config.inj h))

end

section

/-- The checks of a connection, in their order. -/
inductive Check where
  | parse
  | scheme
  | header
  | transport
deriving DecidableEq

variable [Websocket]

/-- The checks of the URL itself, that it parses and that it is not in the clear. -/
def UrlAccepted (url : String) : Prop :=
  ∃ parsed, Websocket.parse url = some parsed ∧ schemeAllowed parsed = true

/-- A connection fails at a check, after those before it have passed. -/
def FailsAt (network : Network) (ep : Endpoint) : Check → Prop
  | .parse => Websocket.parse ep.url = none
  | .scheme => ∃ parsed, Websocket.parse ep.url = some parsed ∧ schemeAllowed parsed = false
  | .header => UrlAccepted ep.url ∧
      ∃ key, ep.bearer = some key ∧ Websocket.headerValue ("Bearer " ++ key) = none
  | .transport => ∃ parsed header, Websocket.parse ep.url = some parsed ∧
      schemeAllowed parsed = true ∧ authorization ep.bearer = .ok header ∧
      network.build parsed header = none

variable {network network' : Network} {check : Check}

theorem authorization_none {key : String} (h : Websocket.headerValue ("Bearer " ++ key) = none) :
    authorization (some key) = .error badKey := by
  rw [authorization, h]
  rfl

theorem authorization_error {bearer : Option String} {e : Error}
    (h : authorization bearer = .error e) :
    e = badKey ∧ ∃ key, bearer = some key ∧ Websocket.headerValue ("Bearer " ++ key) = none := by
  cases bearer with
  | none => cases h
  | some key =>
      cases hvalue : Websocket.headerValue ("Bearer " ++ key) with
      | some v =>
          rw [authorization, hvalue] at h
          cases h
      | none =>
          rw [authorization_none hvalue] at h
          cases h
          exact ⟨rfl, key, rfl, hvalue⟩

/-- The URL is accepted exactly if it is a later check that fails. -/
theorem FailsAt.accepted_iff (h : FailsAt network ep check) :
    UrlAccepted ep.url ↔ check = .header ∨ check = .transport := by
  cases check with
  | parse =>
      refine ⟨fun ⟨parsed, hparse, _⟩ => ?_, by simp⟩
      rw [FailsAt, hparse] at h
      cases h
  | scheme =>
      obtain ⟨parsed, hparse, hallowed⟩ := h
      refine ⟨fun ⟨parsed', hparse', hallowed'⟩ => ?_, by simp⟩
      rw [hparse] at hparse'
      cases hparse'
      rw [hallowed] at hallowed'
      cases hallowed'
  | header => exact ⟨fun _ => .inl rfl, fun _ => h.1⟩
  | transport =>
      obtain ⟨parsed, -, hparse, hallowed, -⟩ := h
      exact ⟨fun _ => .inr rfl, fun _ => ⟨parsed, hparse, hallowed⟩⟩

section

variable [StdTexts] {e : Error}

/-- The error of a check. -/
def Check.error (ep : Endpoint) : Check → Error
  | .parse => badUrl ep.url
  | .scheme => plaintextUrl ep.url
  | .header => badKey
  | .transport => cannotConnect ep.url

/-- A connection behind the checks of its URL. -/
theorem connectEndpoint_accepted {parsed : Websocket.Url}
    (hparse : Websocket.parse ep.url = some parsed) (hallowed : schemeAllowed parsed = true) :
    connectEndpoint network ep = handshake network ep parsed := by
  rw [connectEndpoint, Result.ok_bind (okOr_ok.mpr hparse), hallowed, if_neg (by decide)]

/-- A check that fails has its error. -/
theorem FailsAt.error (h : FailsAt network ep check) :
    connectEndpoint network ep = .error (check.error ep) := by
  cases check with
  | parse =>
      rw [FailsAt] at h
      rw [connectEndpoint, h]
      rfl
  | scheme =>
      obtain ⟨parsed, hparse, hallowed⟩ := h
      rw [connectEndpoint, Result.ok_bind (okOr_ok.mpr hparse), if_pos hallowed]
      rfl
  | header =>
      obtain ⟨⟨parsed, hparse, hallowed⟩, key, hbearer, hvalue⟩ := h
      rw [connectEndpoint_accepted hparse hallowed, handshake, hbearer, authorization_none hvalue]
      rfl
  | transport =>
      obtain ⟨parsed, header, hparse, hallowed, hheader, hbuild⟩ := h
      rw [connectEndpoint_accepted hparse hallowed, handshake, Result.ok_bind hheader, hbuild]
      rfl

/-- Every error is that of a check, or the node's own. -/
theorem connectEndpoint_error (h : connectEndpoint network ep = .error e) :
    (∃ check, FailsAt network ep check ∧ e = check.error ep) ∨
      ∃ transport text, network.fromBackend transport = .error text ∧ e = .chain text := by
  rcases Result.bind_error h with h | ⟨parsed, hparse, h⟩
  · exact .inl ⟨.parse, okOr_isNone h, okOr_error h⟩
  have hparse := okOr_ok.mp hparse
  split at h
  next hallowed =>
    cases h
    exact .inl ⟨.scheme, ⟨parsed, hparse, hallowed⟩, rfl⟩
  next hallowed =>
    have hallowed : schemeAllowed parsed = true := Bool.of_not_eq_false hallowed
    rcases Result.bind_error h with h | ⟨header, hheader, h⟩
    · obtain ⟨rfl, hkey⟩ := authorization_error h
      exact .inl ⟨.header, ⟨⟨parsed, hparse, hallowed⟩, hkey⟩, rfl⟩
    · rcases Result.bind_error h with h | ⟨transport, -, h⟩
      · exact .inl ⟨.transport, ⟨parsed, header, hparse, hallowed, hheader, okOr_isNone h⟩,
          okOr_error h⟩
      · cases hbackend : network.fromBackend transport with
        | ok client =>
            rw [hbackend] at h
            cases h
        | error text =>
            rw [hbackend] at h
            cases h
            exact .inr ⟨transport, text, hbackend, rfl⟩

/-- Two connections to one host that fail at one check have the same error exactly if the
URL is accepted, so that the check is a later one, or both URLs are the same. -/
theorem FailsAt.same_iff (hredact : redactUrl ep.url = redactUrl ep'.url)
    (h : FailsAt network ep check) (h' : FailsAt network' ep' check) :
    connectEndpoint network ep = connectEndpoint network' ep' ↔
      UrlAccepted ep.url ∨ ep.url = ep'.url := by
  rw [h.error, h'.error, h.accepted_iff, Except.error.injEq]
  cases check with
  | parse => simpa [Check.error] using badUrl_inj
  | scheme => simpa [Check.error] using plaintextUrl_inj
  | header => simp [Check.error]
  | transport => simp [Check.error, cannotConnect, hredact]

/-- Connections to one host that fail at one check have the same error exactly if the URL
is accepted or the same.  A redacted URL is its scheme and its host. -/
theorem sameError_iff :
    (∀ (network network' : Network) (ep ep' : Endpoint) (check : Check),
      redactUrl ep.url = redactUrl ep'.url → FailsAt network ep check →
      FailsAt network' ep' check →
      (connectEndpoint network ep = connectEndpoint network' ep' ↔
        UrlAccepted ep.url ∨ ep.url = ep'.url)) ∧
    ∀ parts : UrlParts, redactUrl parts.text = parts.redacted :=
  ⟨fun _ _ _ _ _ hredact h h' => h.same_iff hredact h', UrlParts.redactUrl_text⟩

end

end

/-! ## A key in a query -/

/-- URLs as their scheme and their host, without user info and ports. -/
instance plainWebsocket : Websocket where
  Url := String × String
  parse url := (Split.once schemeEnd url.toList).map fun (scheme, rest) =>
    (String.ofList scheme, String.ofList (rest.takeWhile (· ∉ hostEnds)))
  hostStr url := some url.2
  scheme url := url.1
  HeaderValue := String
  headerValue key := some key
  Transport := Unit
  Client := Unit

/-- A debug text without code points. -/
@[reducible] def plainTexts : StdTexts := ⟨fun _ => false, "out of range"⟩

/-- A network that no host answers on. -/
def offline : Network := ⟨fun _ _ => none, fun _ => .error "no answer"⟩

/-- Plaintext URLs of one host, without and with a key. -/
theorem plaintext_failsAt : FailsAt offline (Endpoint.new "ws://node.io") .scheme ∧
    FailsAt offline (Endpoint.new "ws://node.io/?key=abc") .scheme := by
  constructor
  · exact ⟨("ws", "node.io"), rfl, by decide⟩
  · exact ⟨("ws", "node.io"), rfl, by decide⟩

/-- A plaintext URL with a key in its query is refused with the key in the error. -/
theorem queryKey_printed :
    @connectEndpoint _ plainTexts offline (Endpoint.new "ws://node.io/?key=abc") =
      .error (.config
        "RPC url \"ws://node.io/?key=abc\" must be wss:// (ws:// only on loopback)") ∧
    ¬ ∀ (network : Network) (ep ep' : Endpoint) (check : Check),
      redactUrl ep.url = redactUrl ep'.url → FailsAt network ep check → FailsAt network ep' check →
      @connectEndpoint _ plainTexts network ep = @connectEndpoint _ plainTexts network ep' := by
  obtain ⟨hplain, hkey⟩ := plaintext_failsAt
  have herror := @FailsAt.error _ _ _ _ plainTexts hkey
  have htext : @plaintextUrl plainTexts "ws://node.io/?key=abc" = .config
      "RPC url \"ws://node.io/?key=abc\" must be wss:// (ws:// only on loopback)" := by decide
  refine ⟨herror.trans (congrArg _ htext), fun h => ?_⟩
  have heq := h offline _ _ .scheme (by decide) hplain hkey
  rw [@FailsAt.error _ _ _ _ plainTexts hplain, herror] at heq
  have hurl := (@plaintextUrl_inj _ _ plainTexts).mp (Except.error.inj heq)
  exact absurd hurl (by decide)

/-- Where no host answers, the error is the same with and without keys. -/
theorem keys_hidden :
    @connectEndpoint _ plainTexts offline (Endpoint.new "wss://node.io/?key=abc") =
      @connectEndpoint _ plainTexts offline ((Endpoint.new "wss://node.io").withBearer "xyz") :=
  ((@sameError_iff _ plainTexts).1 offline offline _ _ .transport (by decide)
    ⟨("wss", "node.io"), none, rfl, by decide, rfl, rfl⟩
    ⟨("wss", "node.io"), some "Bearer xyz", rfl, by decide, rfl, rfl⟩).mpr
    (.inl ⟨("wss", "node.io"), rfl, by decide⟩)

end Buyback
