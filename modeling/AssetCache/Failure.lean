import AssetCache.Json.Token
import AssetCache.Text.Quoted

namespace AssetCache

/-- A fetch that got no response at all. A response with an error status is no failure here. -/
inductive FetchError where
  | transport (text : String)
  | timeout (text : String)
  | invalidRequest (text : String)
deriving DecidableEq, Repr

def FetchError.message : FetchError → String
  | transport text => "transport error: " ++ text
  | timeout text => "request timed out: " ++ text
  | invalidRequest text => "invalid request: " ++ text

inductive InstallError where
  | network (url : String) (source : FetchError)
  | badStatus (url : String) (status : UInt16)
  | uncacheable (url : String) (reason : String)
  | invalidEntry (entry : String) (reason : String)
  | duplicateEntry (url : String)
  | storage (text : String)
deriving DecidableEq, Repr

def InstallError.message : InstallError → String
  | network url source => "failed to fetch " ++ url ++ ": " ++ source.message
  | badStatus url status => "bad response for " ++ url ++ ": HTTP " ++ Nat.repr status.toNat
  | uncacheable url reason => "uncacheable response for " ++ url ++ ": " ++ reason
  | invalidEntry entry reason =>
    "invalid manifest entry " ++ Text.quoted entry ++ ": " ++ reason
  | duplicateEntry url => "duplicate manifest entry: " ++ url
  | storage text => "cache storage error: " ++ text

def systemTexts : List String :=
  ["Operation not permitted", "No such file or directory", "No such process",
   "Interrupted system call", "Input/output error", "No such device or address",
   "Argument list too long", "Exec format error", "Bad file descriptor", "No child processes",
   "Resource temporarily unavailable", "Cannot allocate memory", "Permission denied",
   "Bad address", "Block device required", "Device or resource busy", "File exists",
   "Invalid cross-device link", "No such device", "Not a directory", "Is a directory",
   "Invalid argument", "Too many open files in system", "Too many open files",
   "Inappropriate ioctl for device", "Text file busy", "File too large",
   "No space left on device", "Illegal seek", "Read-only file system", "Too many links",
   "Broken pipe", "Numerical argument out of domain", "Numerical result out of range",
   "Resource deadlock avoided", "File name too long", "No locks available",
   "Function not implemented", "Directory not empty", "Too many levels of symbolic links",
   "Unknown error 41", "No message of desired type", "Identifier removed",
   "Channel number out of range", "Level 2 not synchronized", "Level 3 halted", "Level 3 reset",
   "Link number out of range", "Protocol driver not attached", "No CSI structure available",
   "Level 2 halted", "Invalid exchange", "Invalid request descriptor", "Exchange full",
   "No anode", "Invalid request code", "Invalid slot", "Unknown error 58",
   "Bad font file format", "Device not a stream", "No data available", "Timer expired",
   "Out of streams resources", "Machine is not on the network", "Package not installed",
   "Object is remote", "Link has been severed", "Advertise error", "Srmount error",
   "Communication error on send", "Protocol error", "Multihop attempted", "RFS specific error",
   "Bad message", "Value too large for defined data type", "Name not unique on network",
   "File descriptor in bad state", "Remote address changed",
   "Can not access a needed shared library", "Accessing a corrupted shared library",
   ".lib section in a.out corrupted", "Attempting to link in too many shared libraries",
   "Cannot exec a shared library directly", "Invalid or incomplete multibyte or wide character",
   "Interrupted system call should be restarted", "Streams pipe error", "Too many users",
   "Socket operation on non-socket", "Destination address required", "Message too long",
   "Protocol wrong type for socket", "Protocol not available", "Protocol not supported",
   "Socket type not supported", "Operation not supported", "Protocol family not supported",
   "Address family not supported by protocol", "Address already in use",
   "Cannot assign requested address", "Network is down", "Network is unreachable",
   "Network dropped connection on reset", "Software caused connection abort",
   "Connection reset by peer", "No buffer space available",
   "Transport endpoint is already connected", "Transport endpoint is not connected",
   "Cannot send after transport endpoint shutdown", "Too many references: cannot splice",
   "Connection timed out", "Connection refused", "Host is down", "No route to host",
   "Operation already in progress", "Operation now in progress", "Stale file handle",
   "Structure needs cleaning", "Not a XENIX named type file", "No XENIX semaphores available",
   "Is a named type file", "Remote I/O error", "Disk quota exceeded", "No medium found",
   "Wrong medium type", "Operation canceled", "Required key not available", "Key has expired",
   "Key has been revoked", "Key was rejected by service", "Owner died",
   "State not recoverable", "Operation not possible due to RF-kill",
   "Memory page has hardware error"]

/-- A failure of the system underneath: one of its numbered errors, or one that is only told. -/
inductive SystemError where
  | code (n : Int)
  | other (text : String)
deriving DecidableEq, Repr

namespace SystemError

def notFound : SystemError := .code 2
def alreadyThere : SystemError := .code 17
def notFolder : SystemError := .code 20
def isFolder : SystemError := .code 21

def codeText : Int → String
  | .ofNat 0 => "Success"
  | .ofNat (n + 1) => systemTexts.getD n ("Unknown error " ++ Nat.repr (n + 1))
  | n => "Unknown error " ++ Int.repr n

def message : SystemError → String
  | code n => codeText n ++ " (os error " ++ Int.repr n ++ ")"
  | other text => text

end SystemError

inductive CacheError where
  | install (e : InstallError)
  | fetch (e : FetchError)
  | storage (text : String)
  | config (text : String)
  | io (e : SystemError)
  | json (f : Json.Fault)
  | settings (text : String)
  | invalidRequest (text : String)
  | internal (text : String)
deriving DecidableEq, Repr

namespace CacheError

def message : CacheError → String
  | install e => "Install failed: " ++ e.message
  | fetch e => "Network fetch failed: " ++ e.message
  | storage text => "Cache storage error: " ++ text
  | config text => "Configuration error: " ++ text
  | io e => "IO error: " ++ e.message
  | json f => "JSON error: " ++ f.message
  | settings text => "Config parsing error: " ++ text
  | invalidRequest text => "Invalid request: " ++ text
  | internal text => "Internal error: " ++ text

def sources : CacheError → List String
  | install (.network url source) => [(InstallError.network url source).message, source.message]
  | install e => [e.message]
  | fetch e => [e.message]
  | io e => [e.message]
  | json f => [f.message]
  | settings text => [text]
  | _ => []

def status : CacheError → UInt16
  | fetch (.timeout _) => 504
  | fetch _ => 502
  | invalidRequest _ => 400
  | install _ => 503
  | _ => 500

def pageKind : CacheError → String
  | fetch _ => "network_error"
  | invalidRequest _ => "invalid_request_error"
  | install _ => "install_error"
  | config _ | settings _ => "configuration_error"
  | _ => "api_error"

end CacheError

end AssetCache
