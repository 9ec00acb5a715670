import TaintAlias.Config.Yaml
import TaintAlias.Json.Read
import TaintAlias.Json.Records
import TaintAlias.Site
import TaintAlias.Proofs.Path
import TaintAlias.Proofs.Path.Best
import TaintAlias.Proofs.Path.Extend
import TaintAlias.Proofs.Site.Effect
import TaintAlias.Proofs.Site.Coverage
import TaintAlias.Proofs.Site.Dialogue
import TaintAlias.Proofs.Site.ReturnSite
import TaintAlias.Proofs.Manager.Run
import TaintAlias.Proofs.Manager.Stateless
import TaintAlias.Proofs.Manager.Trailing
import TaintAlias.Proofs.QueryCache
import TaintAlias.Proofs.Session.History
import TaintAlias.Proofs.Text
import TaintAlias.Proofs.Session.Accounting
import TaintAlias.Proofs.Manager.Failure
import TaintAlias.Proofs.Manager.Workers
import TaintAlias.Proofs.CallContexts
import TaintAlias.Proofs.Site.Provenance
import TaintAlias.Proofs.Manager.Vocabulary
import TaintAlias.Proofs.Site.Feedback
import TaintAlias.Proofs.Config.Yaml
import TaintAlias.Proofs.QueryCache.Inclusion
import TaintAlias.Proofs.Site.Dropped
import TaintAlias.Proofs.Site.Limit
import TaintAlias.Proofs.Site.Configured
import TaintAlias.Proofs.Session.Counting
import TaintAlias.Proofs.Report
import TaintAlias.Proofs.Decode.Record
import TaintAlias.Proofs.Config.Mapping
import TaintAlias.Proofs.Json.Codec
import TaintAlias.Proofs.Json.RoundTrip
import TaintAlias.Proofs.Path.Text
import TaintAlias.Proofs.Fact.Text
import TaintAlias.Proofs.Fact.Chain
import TaintAlias.Proofs.QueryCache.Recency
import TaintAlias.Proofs.QueryCache.Lru
