import InterCore.Config.Server
import InterCore.Link.Channel

/-!
# The configuration channel

A channel whose messages are configuration requests, answered from a variable store.
-/

namespace InterCore.Link

/-- Answers the requests that come in on a channel, one response for each. -/
def configService [VarStore S] : Handler S := fun _ data store =>
  let (responses, store) := Config.Server.receive store data
  (.ofList responses, store)

end InterCore.Link
