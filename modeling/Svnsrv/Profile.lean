import Svnsrv.Router

/-!
# The service profile and the server

`ParseServiceProfile` of TOMLParse.cc reads svnsrv.toml into the arguments of the
launcher and of the server; `SubversionServer` of SubversionServer.cc takes its
pool size, address and port from these. The types of the fields narrow the
integers of the document in several steps.
-/

namespace Svnsrv.Profile

open CText Toml Router
set_option autoImplicit false

structure NetworkServerArgs where
  poolSize : UInt32
  port : UInt32
  compressionLevel : UInt32
  connectTimeout : UInt32
  isDomainFilter : Bool
  isTunnel : Bool
  address : Bytes
  domain : Bytes
  deriving DecidableEq, Repr

structure LauncherArgs where
  pidFile : Bytes
  logAccess : Bytes
  logError : Bytes
  routerFile : Bytes
  crashRestart : Bool
  deriving DecidableEq, Repr

/-! ## The loader -/

def strings (g : Table) (key : String) (v : String) : Except Fault Bytes :=
  valueOr g (ascii key) Base.asString (ascii v)

/-- `static_cast<int>` keeps the low 32 bits. -/
def Base.asInt (v : Base) : Option Int32 := v.asInt64.map Int64.toInt32

def integer (g : Table) (key : String) (vi : Int32) : Except Fault Int32 :=
  valueOr g (ascii key) Base.asInt vi

def boolean (g : Table) (key : String) (b : Bool) : Except Fault Bool :=
  valueOr g (ascii key) Base.asBool b

/-- `TIMEOUT_INFINITE`, an unsigned number that is passed as an int. -/
def timeoutInfinite : Int32 := (0xFFFFFFFF : UInt32).toInt32

/-- The two structures filled, or none where false is returned: no profile is found, or the
one found does not parse. -/
def parseServiceProfile : Option Table → Except Fault (Option (NetworkServerArgs × LauncherArgs))
  | none => return none
  | some g => do
    let poolSize ← integer g "Service.PoolSize" 64
    let port ← integer g "Network.Port" 3690
    let compressionLevel ← integer g "Network.Compression" 0
    let connectTimeout ← integer g "Network.Timeout" timeoutInfinite
    let address ← strings g "Network.Address" "127.0.0.1"
    let domain ← strings g "Network.Domain" "git.oschina.net"
    let isDomainFilter ← boolean g "Network.DomainFilter" false
    let isTunnel ← boolean g "Network.Tunnel" false
    let logAccess ← strings g "Logger.Access" "/tmp/svnsrv.access.log"
    let logError ← strings g "Logger.Error" "/tmp/svnsrv.error.log"
    let pidFile ← strings g "Daemon.PidFile" "/tmp/svnsrv.pid"
    let crashRestart ← boolean g "Daemon.CrashRestart" true
    let routerFile ← strings g "Router.RangeFile" "router.toml"
    return some
      ({ poolSize := poolSize.toUInt32, port := port.toUInt32,
         compressionLevel := compressionLevel.toUInt32, connectTimeout := connectTimeout.toUInt32,
         isDomainFilter, isTunnel, address, domain },
       { pidFile, logAccess, logError, routerFile, crashRestart })

/-! ## The server -/

/-- What the constructor and `run` use; addresses are those of the socket library. -/
structure SubversionServer (Address : Type) where
  threadPoolSize : UInt64
  endpoint : Address × UInt16

section Server

variable {Address : Type} (fromString : Bytes → Option Address)

/-- The endpoint that the constructor makes. It throws before where the pool is empty or the
address is none; the port parameter is an unsigned short. -/
def makeEndpoint (na : NetworkServerArgs) : Option (Address × UInt16) :=
  if na.poolSize.toUInt64 = 0 then none
  else (fromString na.address).map fun address => (address, na.port.toUInt16)

/-- The constructor; `bound` tells whether the system lets it open, bind and listen. -/
def SubversionServer.new (bound : Bool) (na : NetworkServerArgs) :
    Option (SubversionServer Address) :=
  match makeEndpoint fromString na with
  | some endpoint => if bound then some ⟨na.poolSize.toUInt64, endpoint⟩ else none
  | none => none

end Server

/-- The number of threads that `run` starts. -/
def SubversionServer.run {Address : Type} (self : SubversionServer Address) : Nat :=
  self.threadPoolSize.toNat

end Svnsrv.Profile
