import Meduman.Money
import Meduman.Disburse.Once
import Meduman.Disburse.Keep
import Meduman.Disburse.Report
import Meduman.Disburse.Live
import Meduman.Collect.Keep
import Meduman.Collect.Recover
import Meduman.Collect.Protect
import Meduman.Webhook.Deliver
import Meduman.Webhook.Distinct
import Meduman.Log.Milestones
import Meduman.Collect.Single
import Meduman.Collect.Forward
import Meduman.Collect.Counterparty
import Meduman.Otp.Newest
import Meduman.Chat.Ingest
import Meduman.Linking.Counterparts
import Meduman.Linking.Codes
import Meduman.Linking.Moved
import Meduman.Dispute.Agree
import Meduman.Web.Participants
import Meduman.Dialog.Sales
import Meduman.Invoice.Total
import Meduman.Invoice.Numbering
import Meduman.Analytics.Funnel
import Meduman.Confirm.Window
import Meduman.Collect.Reconcile
import Meduman.Collect.Transfer
import Meduman.Dialog.Steps
import Meduman.Dialog.Confirm
import Meduman.Outbound.Relay
import Meduman.Notify.Msisdn
import Meduman.Notify.Scrub
import Meduman.Outbound.Ssrf
import Meduman.Dialog.Naira
import Meduman.Page.Lists
import Meduman.Invoice.Amounts
import Meduman.Linking.Resolution
import Meduman.Linking.Choice
import Meduman.Linking.Contact
import Meduman.Sellers.Destination
import Meduman.Merchants.Tenants
