import AssetCache.Text.Letter

namespace AssetCache.Http

def hopByHopNames : List String :=
  ["connection", "keep-alive", "proxy-authenticate", "proxy-authorization", "proxy-connection",
   "te", "trailer", "transfer-encoding", "upgrade"]

def isHopByHop (name : String) : Bool := hopByHopNames.any (Text.sameLetters · name)

end AssetCache.Http
