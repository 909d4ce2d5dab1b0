import SshGate.Go.Netip

/-! # Routes, address families and errors

The values that travel between the resolver, the rules and the opener. Errors
keep the chain that `errors.Is` walks; an error of foreign code is known by
its text only.
-/

namespace SshGate

open Go

inductive Route where
  | direct
  | tunnel
  deriving Repr, DecidableEq

def Route.string : Route → Text
  | .direct => str "direct"
  | .tunnel => str "tunnel"

/-- Which address families direct connections may use. -/
inductive IPFamily where
  | both
  | ipv4
  | ipv6
  deriving Repr, DecidableEq

def IPFamily.string : IPFamily → Text
  | .both => str "both"
  | .ipv4 => str "ipv4"
  | .ipv6 => str "ipv6"

/-- A mapped address counts as IPv4 here, as `net.IP.To4` does. -/
def familyMatches (family : IPFamily) (ip : Addr) : Bool :=
  match family with
  | .ipv4 => ip.unmap.is4
  | .ipv6 => !ip.unmap.is4
  | .both => true

/-- The errors of resolving and dialing. -/
inductive Err where
  /-- `errNotFound`, a definitive not-found from a tunnel resolver. -/
  | notFound
  /-- `errUnreachable` with the cause's text. -/
  | unreachable (cause : Text)
  | dns (host : Text) (cause : Err)
  | network (operation address : Text) (cause : Err)
  | noAddress (host : Text)
  | onlyPrivate (host : Text) (first : Addr)
  | noFamily (host : Text) (family : IPFamily)
  | dialNoFamily (ip : Addr) (port : Int) (family : IPFamily)
  | dial (ip : Addr) (port : Int) (cause : Err)
  | directDial (host : Text) (port : Int) (cause : Err)
  | attempts (cause : Err) (count : Nat)
  | text (message : Text)
  /-- The Go runtime would panic: `addrs[0]` of an empty list. -/
  | indexOutOfRange
  deriving Repr, DecidableEq

namespace Err

/-- `errors.Is(err, errNotFound)`. -/
def isNotFound : Err → Bool
  | .notFound => true
  | .dns _ cause | .network _ _ cause | .dial _ _ cause | .directDial _ _ cause
  | .attempts cause _ => cause.isNotFound
  | _ => false

/-- `errors.Is(err, errUnreachable)`. -/
def isUnreachable : Err → Bool
  | .unreachable _ => true
  | .dns _ cause | .network _ _ cause | .dial _ _ cause | .directDial _ _ cause
  | .attempts cause _ => cause.isUnreachable
  | _ => false

/-- The error message. -/
def error : Err → Text
  | .notFound => str "no answer"
  | .unreachable cause => str "server unreachable: " ++ cause
  | .dns host cause => str "DNS resolution failed for " ++ host ++ str ": " ++ cause.error
  | .network operation address cause =>
      operation ++ str " to " ++ address ++ str " failed: " ++ cause.error
  | .noAddress host => str "no address for " ++ host
  | .onlyPrivate host first =>
      str "resolve " ++ host ++ str ": only private addresses (" ++ first.string ++
        str "), refused through the tunnel; add a direct rule to reach it directly"
  | .noFamily host family =>
      str "resolve " ++ host ++ str ": no " ++ family.string ++ str " addresses"
  | .dialNoFamily ip port family =>
      str "dial " ++ ip.string ++ str ":" ++ Text.itoa port ++ str ": no " ++ family.string ++
        str " addresses"
  | .dial ip port cause =>
      str "dial " ++ ip.string ++ str ":" ++ Text.itoa port ++ str ": " ++ cause.error
  | .directDial host port cause =>
      str "direct dial to " ++ host ++ str ":" ++ Text.itoa port ++ str " failed: " ++ cause.error
  | .attempts cause count =>
      cause.error ++ str " (" ++ Text.digits count ++ str " addresses tried)"
  | .text message => message
  | .indexOutOfRange => str "index out of range [0] with length 0"

end Err

/-- Annotate a total dial failure with the number of addresses tried. -/
def withAttempts (err : Err) (attempts : Nat) : Err :=
  if 1 < attempts then .attempts err attempts else err

/-! ## Times

Clock readings and durations are nanoseconds of the monotonic clock. -/

def millisecond : Nat := 1000000
def second : Nat := 1000 * millisecond

end SshGate
