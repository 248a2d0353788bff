import FleetRouter.Lib.Chars
import FleetRouter.Lib.Numeral
import FleetRouter.Fleet.Monitor
import FleetRouter.Fleet.Quarantine

/-!
# The configured servers of a listener

A server has a SHiP endpoint, a chain API address or both.  Two enabled servers never
have one dial target; addresses are read with the URI parser of a library, which is a
parameter here.
-/

namespace FleetRouter.Config

open Ship Session Fleet Chars

/-- A configured upstream server. -/
structure ServerEntry where
  name : String
  /-- The WebSocket address, blank for a server with a chain API only. -/
  endpoint : String
  enabled : Bool
  role : Role
  range : Option Range
  maxSessions : Option Nat
  priority : Nat
  weight : Nat
  apiEndpoint : Option String

/-- Whether the server has a SHiP WebSocket endpoint. -/
def ServerEntry.hasShipEndpoint (s : ServerEntry) : Bool := !(trim s.endpoint.toList).isEmpty

/-- What the monitor's state map is built from. -/
def ServerEntry.monitored (s : ServerEntry) : Fleet.Server where
  endpoint := s.endpoint
  enabled := s.enabled
  hasShipEndpoint := s.hasShipEndpoint
  role := s.role
  range := s.range
  maxSessions := s.maxSessions
  priority := s.priority
  weight := s.weight

/-! ## Addresses -/

/-- The host and port part of a URI. -/
structure Authority where
  text : Text
  /-- An IPv6 literal keeps its brackets. -/
  host : Text
  port : Option (Fin (2 ^ 16))

structure Uri where
  scheme : Option Text
  authority : Option Authority
  path : Text
  query : Option Text

/-- The URI parser; an error comes with its text. -/
structure UriParser where
  uri : Text → Except String Uri
  authority : Text → Option Authority

def isUriScheme : Text → Bool
  | [] => false
  | c :: rest => c.isAlpha && rest.all fun c => c.isAlphanum || c = '+' || c = '-' || c = '.'

def schemeSeparator : Text := [':', '/', '/']

/-- The URL that is dialed; a bare address gets the scheme `ws`. -/
def dialUrl (endpoint : Text) : Text :=
  let endpoint := trim endpoint
  let bare := 'w' :: 's' :: schemeSeparator ++ endpoint
  match splitOnce schemeSeparator endpoint with
  | some (scheme, rest) =>
      if isUriScheme scheme then toAsciiLowercase scheme ++ schemeSeparator ++ rest else bare
  | none => bare

def webSocketSchemes : List Text := [['w', 's'], ['w', 's', 's']]

def unsupportedScheme (endpoint scheme : Text) : String :=
  "endpoint '" ++ .ofList endpoint ++ "' uses unsupported scheme '" ++ .ofList scheme
    ++ "'; expected host:port, ws://, or wss://"

/-- The scheme a trimmed endpoint names is one the router dials. -/
def checkScheme (endpoint : Text) : Except String Unit :=
  match splitOnce schemeSeparator (trim endpoint) with
  | none => .ok ()
  | some (scheme, _) =>
      if !isUriScheme scheme then
        .error ("endpoint '" ++ .ofList endpoint
          ++ "' has a malformed scheme; expected host:port, ws://, or wss://")
      else if toAsciiLowercase scheme ∈ webSocketSchemes then .ok ()
      else .error (unsupportedScheme endpoint (toAsciiLowercase scheme))

/-- The dial target: the same for two spellings of one endpoint. -/
def upstreamIdentity (http : UriParser) (endpoint : Text) : Except String Text := do
  checkScheme endpoint
  let uri ← (http.uri (dialUrl (trim endpoint))).mapError fun err =>
    "endpoint '" ++ .ofList endpoint ++ "' is not a valid WebSocket URL (" ++ err
      ++ "); expected host:port, ws://, or wss://"
  let scheme := uri.scheme.getD []
  if scheme ∉ webSocketSchemes then throw (unsupportedScheme endpoint scheme)
  let noHost := "endpoint '" ++ .ofList endpoint
    ++ "' is missing a host; expected host:port, ws://host:port, or wss://host:port"
  match uri.authority with
  | none => throw noHost
  | some authority =>
      if authority.host = [] then throw noHost
      let port := (authority.port.map Fin.val).getD (if scheme = ['w', 's', 's'] then 443 else 80)
      let userinfo :=
        match rsplitOnce '@' authority.text with
        | some (user, _) => user ++ ['@']
        | none => []
      let query :=
        match uri.query with
        | some query => '?' :: query
        | none => []
      return scheme ++ schemeSeparator ++ userinfo ++ toAsciiLowercase authority.host
        ++ ':' :: Nat.toDigits 10 port ++ uri.path ++ query

/-! ## Chain API addresses -/

/-- Hosts are compared without regard to ASCII case. -/
structure ApiEndpoint where
  host : Text
  port : Fin (2 ^ 16)

inductive ApiEndpointError where
  | https
  | invalid
  deriving DecidableEq, Repr

namespace ApiEndpoint

/-- What equal addresses have in common. -/
def key (api : ApiEndpoint) : Text × Fin (2 ^ 16) := (toAsciiLowercase api.host, api.port)

/-- A decimal number of 16 bits, with or without a sign. -/
def parsePort (text : Text) : Option (Fin (2 ^ 16)) :=
  let digits := (text.dropPrefix? ['+']).getD text
  if digits ≠ [] && digits.all Char.isDigit then
    (Numeral.parse (2 ^ 16) 10 (digits.map fun c => c.toNat - 48)).map (Fin.ofNat _)
  else none

/-- Whatever follows the host is the port, and only `http://` has a default for it. -/
def portOf (explicitHttp : Bool) (parsed : Authority) : Option (Fin (2 ^ 16)) :=
  let after := parsed.text.drop parsed.host.length
  match after.dropPrefix? [':'] with
  | some text => parsePort text
  | none => if after = [] && explicitHttp then some 80 else none

def ofAuthority (http : UriParser) (explicitHttp : Bool) (authority : Text) :
    Except ApiEndpointError ApiEndpoint :=
  if authority = [] || authority.getLast? = some ':'
      || authority.any fun c => c = '/' || c = '?' || c = '#' || c = '@' then .error .invalid
  else
    match http.authority authority with
    | none => .error .invalid
    | some parsed =>
        if parsed.host = [] then .error .invalid
        else
          match portOf explicitHttp parsed with
          | none => .error .invalid
          | some port => if port = 0 then .error .invalid else .ok ⟨parsed.host, port⟩

/-- Reads `http://host[:port]` or `host:port`. -/
def parse (http : UriParser) (raw : Text) : Except ApiEndpointError ApiEndpoint :=
  let raw := trim raw
  match splitOnce schemeSeparator raw with
  | some (scheme, rest) =>
      if toAsciiLowercase scheme = ['h', 't', 't', 'p'] then
        ofAuthority http true ((rest.dropSuffix? ['/']).getD rest)
      else if toAsciiLowercase scheme = ['h', 't', 't', 'p', 's'] then .error .https
      else .error .invalid
  | none => ofAuthority http false raw

/-- `host:port` with a lowercase host. -/
def canonical (api : ApiEndpoint) : Text :=
  toAsciiLowercase api.host ++ ':' :: Nat.toDigits 10 api.port

end ApiEndpoint

/-! ## Validation -/

section Validation

variable (http : UriParser) (listenerCtx : Option String)

/-- A message about one server. -/
def ServerEntry.complain (s : ServerEntry) (what : String) : String :=
  listenerPrefix listenerCtx ++ "server '" ++ s.name ++ "': " ++ what

def weightMessage : String := "weight must be at least 1 (set enabled: false to stop using it)"

/-- The servers in order; `seen` has the dial targets of the enabled ones before, with their
spelling. -/
def checkServers (seen : List (Text × String)) : List ServerEntry → Except String Unit
  | [] => .ok ()
  | s :: rest =>
      if !s.hasShipEndpoint then
        if s.apiEndpoint.isSome then
          if s.role = .frozen then
            .error (s.complain listenerCtx "frozen server requires a SHiP endpoint")
          else if s.weight = 0 then .error (s.complain listenerCtx weightMessage)
          else checkServers seen rest
        else if s.enabled then
          .error (listenerPrefix listenerCtx ++ "server '" ++ s.name ++ "' has an empty endpoint")
        else checkServers seen rest
      else
        match upstreamIdentity http s.endpoint.toList with
        | .error err => .error (s.complain listenerCtx err)
        | .ok identity =>
            if s.weight = 0 then .error (s.complain listenerCtx weightMessage)
            else if !s.enabled then checkServers seen rest
            else
              match seen.lookup identity with
              | some previous =>
                  .error (listenerPrefix listenerCtx ++
                    "duplicate upstream endpoint '" ++ s.endpoint
                    ++ (if previous = s.endpoint then "' — endpoints must be unique"
                      else "' — same target as '" ++ previous ++ "'; endpoints must be unique"))
              | none => checkServers ((identity, s.endpoint) :: seen) rest

def validateServers (servers : List ServerEntry) : Except String Unit :=
  if servers = [] then
    .error (listenerPrefix listenerCtx ++ "config must define at least one server")
  else if servers.all fun s => !s.enabled then
    .error (listenerPrefix listenerCtx ++ "config must have at least one enabled server")
  else checkServers http listenerCtx [] servers

/-- Chain API addresses in order; `seen` has those of the enabled servers before. -/
def checkApiEndpoints (seen : List ((Text × Fin (2 ^ 16)) × String)) :
    List ServerEntry → Except String Unit
  | [] => .ok ()
  | s :: rest =>
      match s.apiEndpoint with
      | none => checkApiEndpoints seen rest
      | some raw =>
          match ApiEndpoint.parse http raw.toList with
          | .error .https =>
              .error (s.complain listenerCtx "https api_endpoint is not supported yet")
          | .error .invalid =>
              .error (s.complain listenerCtx "api_endpoint must be http://host[:port] or host:port")
          | .ok api =>
              if !s.enabled then checkApiEndpoints seen rest
              else
                match seen.lookup api.key with
                | some previous =>
                    .error (s.complain listenerCtx
                      ("api_endpoint duplicates server '" ++ previous ++ "'"))
                | none => checkApiEndpoints ((api.key, s.name) :: seen) rest

def validateApiEndpoints (servers : List ServerEntry) : Except String Unit :=
  checkApiEndpoints http listenerCtx [] servers

end Validation

end FleetRouter.Config
